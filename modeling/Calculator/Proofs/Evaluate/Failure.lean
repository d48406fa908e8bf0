import Calculator.Proofs.Evaluate.Progress

/-!
# Which error is reported

Everything that is wrong with a source competes for being reported, and there are three
kinds of it.

* **Lexical**: the first item that cannot be read.
* **Operation**: the first operation that fails, among those whose right operands are
  complete in what can be read as the beginning of an expression.
* **Grammatical**: the first item with which no expression goes on, the end of input
  being an item like the others.

An operation belongs to the item behind its right operand, for it is that item which
shows that the operand is complete. Failures are ordered by their items, and those of
one item in the order of the list above. `evaluate` reports **the first failure there
is**, and fails only if there is one.

The proof needs one thing of the run: at the item where it stops, what stands in front
can be read and no operation of an earlier item has failed. That comes from
`StopsAt.viable` and `StopsAt.quiet`. That no two failures of one kind belong to one
item has nothing to do with the run.
-/

namespace Calculator

/-! ## Failures -/

/-- The first `n` items are read, and an expression and its end can begin with them. -/
structure ReadableUpTo (source : String) (n : Nat) : Prop where
  le_length : n ≤ (items source).length
  reads : ∀ sp ∈ (items source).take n, sp.Reads
  viable : Viable (((items source).take n).map Span.text)

/-- A kind of failure. -/
inductive Failure.Kind where
  | lexical
  | operation
  | grammatical
deriving DecidableEq

/-- Failures at one item are reported in this order. -/
def Failure.Kind.rank : Failure.Kind → Nat
  | lexical => 0
  | operation => 1
  | grammatical => 2

theorem Failure.Kind.rank_injective {k k' : Failure.Kind} (h : k.rank = k'.rank) : k = k' := by
  cases k <;> cases k' <;> first | rfl | cases h

/-- Something that is wrong with a source. -/
structure Failure where
  /-- The item that it belongs to. -/
  item : Nat
  kind : Failure.Kind
  error : Error

/-- The order in which failures are reported. -/
def Failure.Before (f g : Failure) : Prop :=
  f.item < g.item ∨ f.item = g.item ∧ f.kind.rank < g.kind.rank

/-- What a token that cannot stand behind these words is reported as. -/
inductive Misplaced (ws : List (List Char)) (found : Token) : Cause → Prop where
  | trailing {e : Expression} : ws = e.words → Misplaced ws found (.trailingInput found)
  | operand : (∀ e : Expression, ws ≠ e.words) → Misplaced ws found (.unexpectedTokenInFactor found)

/-- An operation of the source fails with its operands complete. -/
structure Operation.Fails (source : String) (o : Operation) (cause : Cause) : Prop where
  mem : o.In ((items source).map Span.text)
  readable : ReadableUpTo source o.stop
  fails : o.FailsWith cause

/-- What is wrong with a source, the first of each kind. -/
inductive IsFailure (source : String) : Failure → Prop where
  | lexical {j : Nat} {sp : Span} {e : Error} :
      (items source)[j]? = some sp → (∀ s ∈ (items source).take j, s.Reads) →
      sp.outcome = .error e → IsFailure source ⟨j, .lexical, e⟩
  | operation {o : Operation} {cause : Cause} {sp : Span} : o.Fails source cause →
      (∀ o' cause', Operation.Fails source o' cause' → ¬ o'.Before o) →
      (items source)[o.start]? = some sp →
      IsFailure source ⟨o.stop, .operation, ⟨cause, sp.start⟩⟩
  | grammatical {j : Nat} {sp : Span} {found : Token} {cause : Cause} :
      ReadableUpTo source j → (items source)[j]? = some sp → sp.outcome = .ok found →
      ¬ ReadableUpTo source (j + 1) →
      Misplaced (((items source).take j).map Span.text) found cause →
      IsFailure source ⟨j, .grammatical, ⟨cause, sp.start⟩⟩

/-! ## What can be read -/

section Readable

variable {source : String} {read rest : List Span} {bad : Span}

theorem ReadableUpTo.mono {m n : Nat} (h : ReadableUpTo source n) (hmn : m ≤ n) :
    ReadableUpTo source m where
  le_length := Nat.le_trans hmn h.le_length
  reads := fun sp hsp => h.reads sp ((List.take_prefix_take_left hmn).subset hsp)
  viable := by
    obtain ⟨more, hmore⟩ := (List.take_prefix_take_left (l := items source) hmn).map Span.text
    have hv := h.viable
    rw [← hmore] at hv
    exact hv.of_append

theorem ReadableUpTo.reads_of_lt {j n : Nat} {sp : Span} (h : ReadableUpTo source n)
    (hsp : (items source)[j]? = some sp) (hlt : j < n) : sp.Reads :=
  h.reads sp (List.mem_of_getElem? (by rw [List.getElem?_take_of_lt hlt]; exact hsp))

/-- The items that were read are the first ones. -/
theorem take_read (h : items source = read ++ bad :: rest) :
    (items source).take read.length = read := by
  rw [h, List.take_left]

theorem getElem?_read (h : items source = read ++ bad :: rest) :
    (items source)[read.length]? = some bad := h ▸ getElem?_first read rest bad

theorem getElem?_of_read (h : items source = read ++ bad :: rest) {i : Nat} {sp : Span}
    (hi : read[i]? = some sp) : (items source)[i]? = some sp := by
  rw [h, List.getElem?_append_left (List.getElem?_eq_some_iff.mp hi).1, hi]

theorem texts_of_read (h : items source = read ++ bad :: rest) :
    read.map Span.text <+: (items source).map Span.text := by
  rw [h, List.map_append]
  exact List.prefix_append _ _

theorem readableUpTo_read (h : items source = read ++ bad :: rest) (hreads : ∀ sp ∈ read, sp.Reads)
    (hv : Viable (read.map Span.text)) : ReadableUpTo source read.length where
  le_length := by
    rw [h, List.length_append]
    omega
  reads := by rwa [take_read h]
  viable := by rwa [take_read h]

/-- Behind what was read, `bad` would have to go on with it. -/
theorem ReadableUpTo.viable_concat (h : items source = read ++ bad :: rest)
    (hr : ReadableUpTo source (read.length + 1)) : Viable (read.map Span.text ++ [bad.text]) := by
  have hv := hr.viable
  rw [h, List.take_append, List.take_of_length_le (by omega)] at hv
  rw [show read.length + 1 - read.length = 1 by omega, List.map_append] at hv
  exact hv

end Readable

/-! ## Failures of one item -/

theorem Misplaced.unique {ws : List (List Char)} {found : Token} {cause cause' : Cause}
    (h : Misplaced ws found cause) (h' : Misplaced ws found cause') : cause = cause' := by
  cases h with
  | trailing he =>
      cases h' with
      | trailing _ => rfl
      | operand hne => exact absurd he (hne _)
  | operand hne =>
      cases h' with
      | trailing he => exact absurd he (hne _)
      | operand _ => rfl

/-- Operations that end together, neither before the other, are one. -/
theorem Operation.In.eq_of_stop_eq {ws : List (List Char)} {o o' : Operation} (h : o.In ws)
    (h' : o'.In ws) (hstop : o.stop = o'.stop) (hnot : ¬ o.Before o') (hnot' : ¬ o'.Before o) :
    o = o' := by
  obtain ⟨e, he, hend⟩ := h.exists_expression
  have hend' : o'.stop = e.words.length := hstop ▸ hend
  cases hl : o.operator.level with
  | multiplicative =>
      cases hl' : o'.operator.level with
      | multiplicative =>
          obtain ⟨t, op, f, hlast, rfl⟩ := h.product_of_stop_eq he hend hl
          obtain ⟨t', op', f', hlast', rfl⟩ := h'.product_of_stop_eq he hend' hl'
          obtain ⟨rfl, rfl, rfl⟩ := Chain.snoc_inj (hlast.symm.trans hlast')
          rfl
      | additive => exact absurd (.inr ⟨hstop, hl, hl'⟩) hnot
  | additive =>
      cases hl' : o'.operator.level with
      | multiplicative => exact absurd (.inr ⟨hstop.symm, hl', hl⟩) hnot'
      | additive =>
          obtain ⟨d, op, t, _, hd, _, _, rfl⟩ := h.sum_of_stop_eq he hend hl
          obtain ⟨d', op', t', _, hd', _, _, rfl⟩ := h'.sum_of_stop_eq he hend' hl'
          obtain ⟨rfl, rfl, rfl⟩ := Chain.snoc_inj (hd.symm.trans hd')
          rfl

namespace IsFailure

variable {source : String} {f g : Failure}

/-- **At one item there is one failure of a kind.** -/
theorem unique (hf : IsFailure source f) (hg : IsFailure source g) (hitem : f.item = g.item)
    (hkind : f.kind = g.kind) : f = g := by
  cases hf with
  | lexical hsp _ he =>
      cases hg with
      | lexical hsp' _ he' =>
          dsimp only at hitem
          subst hitem
          cases hsp.symm.trans hsp'
          cases he.symm.trans he'
          rfl
      | operation _ _ _ => cases hkind
      | grammatical _ _ _ _ _ => cases hkind
  | @operation o cause sp ho hfirst hsp =>
      cases hg with
      | lexical _ _ _ => cases hkind
      | @operation o' cause' sp' ho' hfirst' hsp' =>
          -- both are the first that fails, so neither comes before the other
          have heq : o = o' := ho.mem.eq_of_stop_eq ho'.mem hitem (hfirst' o cause ho)
            (hfirst o' cause' ho')
          subst heq
          cases ho.fails.unique ho'.fails
          cases hsp.symm.trans hsp'
          rfl
      | grammatical _ _ _ _ _ => cases hkind
  | grammatical _ hsp hfound _ hcause =>
      cases hg with
      | lexical _ _ _ => cases hkind
      | operation _ _ _ => cases hkind
      | grammatical _ hsp' hfound' _ hcause' =>
          dsimp only at hitem
          subst hitem
          cases hsp.symm.trans hsp'
          cases hfound.symm.trans hfound'
          cases hcause.unique hcause'
          rfl

/--
**The first failure.** In front of its item everything can be read and nothing has failed,
and at its item nothing ranks before it.
-/
theorem first (hf : IsFailure source f) (hread : ReadableUpTo source f.item)
    (hquiet : ∀ o cause, Operation.Fails source o cause → f.item ≤ o.stop)
    (hrank : ∀ g, IsFailure source g → g.item = f.item → f.kind.rank ≤ g.kind.rank) :
    ∀ g, IsFailure source g → g = f ∨ f.Before g := by
  intro g hg
  have hle : f.item ≤ g.item := by
    by_contra hlt
    rw [Nat.not_le] at hlt
    -- `g` would belong to an item that is read, goes on and completes nothing that fails
    cases hg with
    | lexical hsp _ he => exact Span.not_reads_of_error he (hread.reads_of_lt hsp hlt)
    | operation ho _ _ => exact absurd (hquiet _ _ ho) (Nat.not_le.mpr hlt)
    | grammatical _ _ _ hnot _ => exact hnot (hread.mono hlt)
  rcases Nat.eq_or_lt_of_le hle with hitem | hlt
  · rcases Nat.eq_or_lt_of_le (hrank g hg hitem.symm) with hkind | hlt
    · refine .inl (hg.unique hf hitem.symm ?_)
      exact (Failure.Kind.rank_injective hkind).symm
    · exact .inr (.inr ⟨hitem, hlt⟩)
  · exact .inr (.inl hlt)

end IsFailure

/-! ## What the evaluation stops at -/

section Stops

variable {source : String} {read rest : List Span} {bad : Span} {e : Error}

/-- Operations that fail belong to the item where the evaluation stops, or to a later one. -/
theorem StopsAt.le_stop (h : StopsAt read bad e) (hitems : items source = read ++ bad :: rest)
    {o : Operation} {cause : Cause} (ho : o.Fails source cause) : read.length ≤ o.stop := by
  by_contra hlt
  exact h.quiet ho.mem (texts_of_read hitems) (Nat.not_le.mp hlt) ho.fails

/-- An item that cannot be read is the first failure. -/
theorem first_of_unreadable (h : StopsAt read bad e) (hitems : items source = read ++ bad :: rest)
    (hreads : ∀ sp ∈ read, sp.Reads) (hbad : bad.outcome = .error e) :
    ∃ f, IsFailure source f ∧ f.error = e ∧ ∀ g, IsFailure source g → g = f ∨ f.Before g := by
  have hf : IsFailure source ⟨read.length, .lexical, e⟩ :=
    .lexical (getElem?_read hitems) (by rwa [take_read hitems]) hbad
  exact ⟨_, hf, rfl, hf.first (readableUpTo_read hitems hreads h.viable)
    (fun _ _ => h.le_stop hitems) (fun _ _ _ => Nat.zero_le _)⟩

/-- A token that nothing goes on with is the first failure, if no operation in front of it fails. -/
theorem first_of_misplaced (hitems : items source = read ++ bad :: rest)
    (hreads : ∀ sp ∈ read, sp.Reads) (hviable : Viable (read.map Span.text)) {found : Token}
    {cause : Cause} (hbad : bad.outcome = .ok found)
    (hnot : ¬ Viable (read.map Span.text ++ [bad.text]))
    (hmisplaced : Misplaced (read.map Span.text) found cause)
    (hquiet : ∀ o cause, Operation.Fails source o cause → read.length < o.stop) :
    ∃ f, IsFailure source f ∧ f.error = ⟨cause, bad.start⟩
      ∧ ∀ g, IsFailure source g → g = f ∨ f.Before g := by
  have hread := readableUpTo_read hitems hreads hviable
  have hf : IsFailure source ⟨read.length, .grammatical, ⟨cause, bad.start⟩⟩ :=
    .grammatical hread (getElem?_read hitems) hbad (fun hr => hnot (hr.viable_concat hitems))
      (by rwa [take_read hitems])
  refine ⟨_, hf, rfl, hf.first hread (fun o cause ho => Nat.le_of_lt (hquiet o cause ho)) ?_⟩
  intro g hg hitem
  dsimp only at hitem
  cases hg with
  | lexical hsp _ he =>
      dsimp only at hitem
      subst hitem
      cases (getElem?_read hitems).symm.trans hsp
      exact absurd ⟨found, hbad⟩ (Span.not_reads_of_error he)
  | operation ho _ _ => exact absurd hitem (Nat.ne_of_gt (hquiet _ _ ho))
  | grammatical _ _ _ _ _ => exact Nat.le_refl _

/-- An operation that fails is the first failure, if it is the inner one of its item. -/
theorem first_of_operation (h : StopsAt read bad e) (hitems : items source = read ++ bad :: rest)
    (hbad : bad.Reads) {o : Operation} {cause : Cause} {sp : Span}
    (ho : o.Fails source cause) (hstop : o.stop = read.length)
    (hinner : ∀ o' cause', Operation.Fails source o' cause' → o'.stop = o.stop → ¬ o'.Before o)
    (hsp : (items source)[o.start]? = some sp) :
    ∃ f, IsFailure source f ∧ f.error = ⟨cause, sp.start⟩
      ∧ ∀ g, IsFailure source g → g = f ∨ f.Before g := by
  have hf : IsFailure source ⟨o.stop, .operation, ⟨cause, sp.start⟩⟩ := by
    refine .operation ho (fun o' cause' ho' hbefore => ?_) hsp
    rcases hbefore with hlt | ⟨heq, hlevels⟩
    · have hle := h.le_stop hitems ho'
      omega
    · exact hinner o' cause' ho' heq (.inr ⟨heq, hlevels⟩)
  refine ⟨_, hf, rfl, hf.first ho.readable (fun o' cause' ho' => ?_) ?_⟩
  · rw [hstop]
    exact h.le_stop hitems ho'
  · intro g hg hitem
    dsimp only at hitem
    cases hg with
    | lexical hsp' _ he =>
        dsimp only at hitem
        rw [hitem, hstop] at hsp'
        cases (getElem?_read hitems).symm.trans hsp'
        exact absurd hbad (Span.not_reads_of_error he)
    | operation _ _ _ => exact Nat.le_refl _
    | grammatical _ _ _ _ _ => exact Nat.le_succ _

/-- **An evaluation that stops with an error stops at the first failure.** -/
theorem StopsAt.exists_first (h : StopsAt read bad e) (hitems : items source = read ++ bad :: rest)
    (hreads : ∀ sp ∈ read, sp.Reads) :
    ∃ f, IsFailure source f ∧ f.error = e ∧ ∀ g, IsFailure source g → g = f ∨ f.Before g := by
  have hws := texts_of_read hitems
  have hreadable := readableUpTo_read hitems hreads h.viable
  have hstops := h
  cases h with
  | unreadable _ hbad => exact first_of_unreadable hstops hitems hreads hbad
  | behind _ _ _ hbad => exact first_of_unreadable hstops hitems hreads hbad
  | missing hawaits hbad hnosign hnonumber =>
      refine first_of_misplaced hitems hreads hawaits.viable hbad
        (hawaits.not_viable hbad hnosign hnonumber) (.operand hawaits.ne_words) ?_
      intro o cause ho
      by_contra hle
      exact hawaits.quiet ho.mem hws (by rw [List.length_map]; omega) ho.fails
  | @trailing e v w hread hv hbad =>
      have hspells : Spells bad.text (.number w) :=
        spells_of_reading (lexeme_of_mem_items (by rw [hitems]; simp))
          (Span.outcome_eq_ok_iff.mp hbad)
      refine first_of_misplaced hitems hreads (hread ▸ e.viable_words) hbad
        (hread ▸ e.not_viable_numeral hspells.numeral.1) (.trailing hread) ?_
      intro o cause ho
      by_contra hle
      rw [hread] at hws
      refine ho.mem.not_failsWith_of_value hv hws ?_ ho.fails
      rw [← hread, List.length_map]
      omega
  | @product before right sp e e₀ t f l r cause op hread hbefore hright hlast hwords _ ht hf happly
      hbad =>
      have heq : read.map Span.text = e.words :=
        (map_text_eq hread hbefore hright).trans hwords.symm
      subst hread
      obtain ⟨o, ho, hlevel, hfails, hstop, hstart⟩ :=
        exists_product_of_read op heq hright hlast ht hf happly hws
      refine first_of_operation hstops hitems hbad ⟨ho, hstop ▸ hreadable, hfails⟩ hstop ?_
        (getElem?_of_read hitems hstart)
      -- a product is the inner one of its item
      intro o' cause' _ hstop' hbefore'
      rcases hbefore' with hlt | ⟨_, _, hlevel'⟩
      · exact absurd hstop' (Nat.ne_of_lt hlt)
      · exact absurd (hlevel.symm.trans hlevel') (by decide)
  | @sum before right sp d t l r cause next op hread hbefore hright hd ht happly hbad hends =>
      have heq : read.map Span.text = Expression.words (d.snoc op t) :=
        (map_text_eq hread hbefore hright).trans (Expression.words_snoc d op t).symm
      have hlen : (Expression.words (d.snoc op t)).length = read.length := by
        rw [← heq, List.length_map]
      subst hread
      obtain ⟨o, ho, _, hfails, hstop, hstart⟩ :=
        exists_sum_of_read op hbefore hright hd ht happly hbad hends rest
      rw [← hitems] at ho
      refine first_of_operation hstops hitems ⟨next, hbad⟩ ⟨ho, hstop ▸ hreadable, hfails⟩ hstop
        ?_ (getElem?_of_read hitems hstart)
      -- a product that ends with this sum is in its right operand, which has a value
      intro o' cause' ho' hstop' hbefore'
      rcases hbefore' with hlt | ⟨_, hlevel, _⟩
      · exact absurd hstop' (Nat.ne_of_lt hlt)
      · exact ho'.mem.product_succeeds (heq ▸ hws) (by rw [Chain.last_snoc]; exact ht)
          (hstop'.trans (hstop.trans hlen.symm)) hlevel ho'.fails

end Stops

/-- **Nothing is wrong with a source that spells an expression with a value.** -/
theorem not_isFailure_of_value {source : String} {e : Expression} {v : Value}
    (hwords : (spans source).map Span.text = e.words) (hv : e.value = .ok v)
    (hreads : ∀ sp ∈ spans source, sp.Reads) (f : Failure) : ¬ IsFailure source f := by
  have hws : (items source).map Span.text = e.words ++ [[]] := by
    rw [items_eq, List.map_append, hwords, List.map_singleton]
  have hall : ReadableUpTo source (items source).length := by
    refine ⟨Nat.le_refl _, ?_, ?_⟩
    · rw [List.take_length, items_eq]
      exact List.forall_mem_append.mpr ⟨hreads, by simpa using ⟨Token.endOfInput, rfl⟩⟩
    · rw [List.take_length, hws]
      exact e.viable_words_end
  intro hf
  cases hf with
  | lexical hsp _ he =>
      have hlt := (List.getElem?_eq_some_iff.mp hsp).1
      exact Span.not_reads_of_error he (hall.reads_of_lt hsp hlt)
  | operation ho _ _ =>
      have hbegins : e.words ++ [[]] <+: (items source).map Span.text := hws ▸ List.prefix_refl _
      -- the end of input is no literal, so the operation ends with the expression at the latest
      have hle := ho.mem.stop_le hbegins (by simpa using not_numeral_nil)
        (by rw [← hws, List.length_map]; exact ho.readable.le_length)
      exact ho.mem.not_failsWith_of_value hv ((List.prefix_append _ _).trans hbegins) hle ho.fails
  | grammatical _ hsp _ hnot _ =>
      exact hnot (hall.mono (List.getElem?_eq_some_iff.mp hsp).1)

theorem Failure.not_before_of_before {f g : Failure} (h : f.Before g) : ¬ g.Before f := by
  intro h'
  unfold Before at h h'
  omega

/-- **The error that is reported is that of the first failure**, and is there if a failure is. -/
theorem evaluate_eq_error_iff_first (source : String) :
    (∀ e, evaluate source = .error e ↔
      ∃ f, IsFailure source f ∧ f.error = e ∧ ∀ g, IsFailure source g → g = f ∨ f.Before g)
    ∧ ((∃ e, evaluate source = .error e) ↔ ∃ f, IsFailure source f) := by
  have hends := ends_evaluate source
  cases hrun : evaluate source with
  | ok v =>
      rw [hrun] at hends
      cases hends with
      | value hwords hv hreads =>
          have hnone := not_isFailure_of_value hwords hv hreads
          refine ⟨fun e => ⟨fun h => ?_, fun h => ?_⟩, ⟨fun h => ?_, fun h => ?_⟩⟩
          · cases h
          · obtain ⟨f, hf, _⟩ := h
            exact absurd hf (hnone f)
          · obtain ⟨e, he⟩ := h
            cases he
          · obtain ⟨f, hf⟩ := h
            exact absurd hf (hnone f)
  | error e₀ =>
      rw [hrun] at hends
      cases hends with
      | error hitems hreads hstops =>
          obtain ⟨f, hf, hfe, hfirst⟩ := hstops.exists_first hitems hreads
          refine ⟨fun e => ⟨fun h => ?_, fun h => ?_⟩, ⟨fun _ => ⟨f, hf⟩, fun _ => ⟨e₀, rfl⟩⟩⟩
          · cases h
            exact ⟨f, hf, hfe, hfirst⟩
          · -- two failures that are both first are one
            obtain ⟨g, hg, rfl, hgfirst⟩ := h
            rcases hfirst g hg with rfl | hbefore
            · rw [hfe]
            · rcases hgfirst f hf with rfl | hbefore'
              · rw [hfe]
              · exact absurd hbefore' (Failure.not_before_of_before hbefore)

-- the invalid character is the item behind the right operand, and then it is one further on
example : evaluate "1 / 0 $" = .error ⟨.invalidCharacter '$', 6⟩ := by decide +kernel

example : evaluate "1 / 0 * $" = .error ⟨.divisionByZero, 4⟩ := by decide +kernel

end Calculator
