import Calculator.Proofs.Evaluate.Operand

/-!
# Signs put in front of an operand

Signs that amount to plus, such as `+` or `--`, can be put in wherever no number stands right
in front: behind an operator, behind other signs, or at the very start. A reader that comes to
them goes through them and **is behind them where the other reader is already**, with the same
sign carried along. So far the two of them match, and from there on.

What has to be looked at is the moment when a reader goes on. A reader without the signs looks
at what stands behind them at once, and the other one only after a rule has been through them.
If it cannot be read the one notices this sooner than the other; but nothing is computed in
between, so the error is the same.

At the end of an operand this would not do: behind a number a sign is an operator.
-/

namespace Calculator

/-- The words of a source, and the same with signs put in behind one that is no number. -/
inductive SignsIn (signs : List Sign) : List (List Char) → List (List Char) → Prop where
  /-- The reader is past them. -/
  | past {ws} : SignsIn signs ws ws
  /-- They come next. -/
  | here {w ws} : (∀ v, reading w ≠ .ok (.number v)) →
      SignsIn signs (w :: ws) (w :: ((signs.map fun s => s.text.toList) ++ ws))
  | later {w ws ws'} : SignsIn signs ws ws' → SignsIn signs (w :: ws) (w :: ws')

namespace SignsIn

variable {signs : List Sign}

/-- What is looked at is the same. -/
theorem head_eq {w w' : List Char} {ws ws' : List (List Char)}
    (h : SignsIn signs (w :: ws) (w' :: ws')) : w' = w := by
  cases h <;> rfl

/-- Signs can be put in behind the last of some words. -/
theorem append {w : List Char} (hw : ∀ v, reading w ≠ .ok (.number v))
    (front ws : List (List Char)) :
    SignsIn signs (front ++ w :: ws)
      (front ++ w :: ((signs.map fun s => s.text.toList) ++ ws)) := by
  induction front with
  | nil => exact .here hw
  | cons v front ih => exact .later ih

end SignsIn

/-- Readers of two sources, the second of which has signs put in. -/
structure Reader.Matches (signs : List Sign) (r r' : Reader) : Prop where
  left : r.Faithful
  right : r'.Faithful
  words : SignsIn signs (r.items.map Span.text) (r'.items.map Span.text)

/-- The same result and readers that match, or errors with the same cause. -/
inductive Agree (signs : List Sign) {α : Type} :
    Except Error α × Reader → Except Error α × Reader → Prop where
  | ok {a : α} {r r' : Reader} : r.Matches signs r' → Agree signs (.ok a, r) (.ok a, r')
  | error {e e' : Error} {r r' : Reader} : e'.cause = e.cause →
      Agree signs (.error e, r) (.error e', r')

namespace Rule

/-- The rule behind the token that is looked at. -/
def behind (rule : Rule) (r : Reader) : Except Error Value × Reader :=
  match r.advance with
  | (.ok (), r₁) => rule.run r₁
  | (.error e, r₁) => (.error e, r₁)

/-- Readers that match give results that agree. -/
def Agrees (signs : List Sign) (rule : Rule) : Prop :=
  ∀ {r r' : Reader}, r.Matches signs r' → Agree signs (rule.run r) (rule.run r')

/-- In front of the signs the rule gives what it gives behind them, or the error that is there. -/
structure SkipsSigns (signs : List Sign) (rule : Rule) : Prop where
  reads : ∀ {r : Reader} {front back : List Span} {next : Span}, r.Faithful →
    r.items = front ++ next :: back →
    front.map Span.text = (signs.map fun s => s.text.toList) → next.Reads →
    ∃ r', r.Passes r' front ∧ rule.run r = rule.run r'
  fails : ∀ {r : Reader} {front back : List Span} {next : Span} {e : Error}, r.Faithful →
    r.items = front ++ next :: back →
    front.map Span.text = (signs.map fun s => s.text.toList) → next.outcome = .error e →
    ∃ r', rule.run r = (.error e, r')

/-- Where the one reader goes on, the other one comes to the same place with the rule. -/
inductive CatchesUp (signs : List Sign) (rule : Rule) :
    Except Error Unit × Reader → Except Error Value × Reader → Prop where
  | goesOn {r r' : Reader} : r.Matches signs r' → CatchesUp signs rule (.ok (), r) (rule.run r')
  | fails {e e' : Error} {r r' : Reader} : e'.cause = e.cause →
      CatchesUp signs rule (.error e, r) (.error e', r')

end Rule

/-! ## What the one result says of the other -/

section

variable {signs : List Sign} {r : Reader}

theorem Agree.ok_left {α : Type} {a : α} {p : Except Error α × Reader}
    (h : Agree signs (.ok a, r) p) : ∃ r', p = (.ok a, r') ∧ r.Matches signs r' := by
  cases h with
  | ok h => exact ⟨_, rfl, h⟩

theorem Agree.error_left {α : Type} {e : Error} {p : Except Error α × Reader}
    (h : Agree signs (.error e, r) p) : ∃ e' r', p = (.error e', r') ∧ e'.cause = e.cause := by
  cases h with
  | error h => exact ⟨_, _, rfl, h⟩

theorem Rule.CatchesUp.ok_left {rule : Rule} {p : Except Error Value × Reader}
    (h : rule.CatchesUp signs (.ok (), r) p) : ∃ r', p = rule.run r' ∧ r.Matches signs r' := by
  cases h with
  | goesOn h => exact ⟨_, rfl, h⟩

theorem Rule.CatchesUp.error_left {rule : Rule} {e : Error} {p : Except Error Value × Reader}
    (h : rule.CatchesUp signs (.error e, r) p) :
    ∃ e' r', p = (.error e', r') ∧ e'.cause = e.cause := by
  cases h with
  | fails h => exact ⟨_, _, rfl, h⟩

end

theorem Rule.behind_of_ok {rule : Rule} {r r₁ : Reader} (h : r.advance = (.ok (), r₁)) :
    rule.behind r = rule.run r₁ := by
  rw [behind, h]

theorem Rule.behind_of_error {rule : Rule} {r r₁ : Reader} {e : Error}
    (h : r.advance = (.error e, r₁)) : rule.behind r = (.error e, r₁) := by
  rw [behind, h]

/-! ## Going on -/

namespace Reader

variable {signs : List Sign} {r r' : Reader}

theorem Matches.text_eq (h : r.Matches signs r') : r'.span.text = r.span.text := h.words.head_eq

theorem Matches.current_eq (h : r.Matches signs r') : r'.current = r.current :=
  h.right.current_eq (by rw [h.text_eq, h.left.reading])

theorem Matches.operator?_eq (h : r.Matches signs r') (level : Level) :
    r'.operator? level = r.operator? level := by
  rw [operator?, operator?, h.current_eq]

/-- Behind anything but the end there is something more. -/
theorem exists_items (hc : r.current ≠ .endOfInput) :
    ∃ next rest, r.items = r.span :: next :: rest := by
  rw [items, if_neg hc]
  cases hitems : r.cursor.items with
  | nil => exact absurd hitems (by simp [Cursor.items])
  | cons next rest => exact ⟨next, rest, rfl⟩

/-- With the signs behind or still further on, both readers go on alike. -/
theorem advance_agree {sp sp' next next' : Span} {rest rest' : List Span} (hr : r.Faithful)
    (hr' : r'.Faithful) (hitems : r.items = sp :: next :: rest)
    (hitems' : r'.items = sp' :: next' :: rest')
    (hwords : SignsIn signs ((next :: rest).map Span.text) ((next' :: rest').map Span.text)) :
    Agree signs r.advance r'.advance := by
  have htext : next'.text = next.text := hwords.head_eq
  cases hreading : reading next.text with
  | ok t =>
      obtain ⟨r₁, ha, hpass, hrest⟩ :=
        exists_advance hr hitems ⟨t, Span.outcome_eq_ok_iff.mpr hreading⟩
      obtain ⟨r₁', ha', hpass', hrest'⟩ :=
        exists_advance hr' hitems' ⟨t, Span.outcome_eq_ok_iff.mpr (htext ▸ hreading)⟩
      rw [ha, ha']
      exact .ok ⟨hpass.faithful, hpass'.faithful, by rwa [hrest, hrest']⟩
  | error cause =>
      obtain ⟨r₁, ha⟩ := exists_advance_error hr hitems
        (Span.outcome_eq_error_iff.mpr ⟨cause, hreading, rfl⟩)
      obtain ⟨r₁', ha'⟩ := exists_advance_error hr' hitems'
        (Span.outcome_eq_error_iff.mpr ⟨cause, htext ▸ hreading, rfl⟩)
      rw [ha, ha']
      exact .error rfl

/-- Where the signs stand if a reader goes on: behind, further on, or next. -/
theorem Matches.exists_items (h : r.Matches signs r') (hc : r.current ≠ .endOfInput) :
    ∃ next rest next' rest', r.items = r.span :: next :: rest
      ∧ r'.items = r'.span :: next' :: rest'
      ∧ (SignsIn signs ((next :: rest).map Span.text) ((next' :: rest').map Span.text)
        ∨ (∀ v, r.current ≠ .number v) ∧ (next' :: rest').map Span.text
          = (signs.map fun s => s.text.toList) ++ (next :: rest).map Span.text) := by
  obtain ⟨next, rest, hitems⟩ := Reader.exists_items hc
  obtain ⟨next', rest', hitems'⟩ := Reader.exists_items (r := r') (h.current_eq ▸ hc)
  refine ⟨next, rest, next', rest', hitems, hitems', ?_⟩
  have hwords : SignsIn signs (r.span.text :: (next :: rest).map Span.text)
      (r'.span.text :: (next' :: rest').map Span.text) := by
    have hwords := h.words
    rwa [hitems, hitems'] at hwords
  generalize (next :: rest).map Span.text = ws at hwords ⊢
  generalize (next' :: rest').map Span.text = ws' at hwords ⊢
  generalize hw : r.span.text = w at hwords
  generalize r'.span.text = w' at hwords
  cases hwords with
  | past => exact .inl .past
  | here hno => exact .inr ⟨fun v hv => hno v (by rw [← hw, h.left.reading, hv]), rfl⟩
  | later htail => exact .inl htail

/-- **Behind a number no signs are put in**, so there both readers go on alike. -/
theorem Matches.advance_number (h : r.Matches signs r') {v : Value} (hc : r.current = .number v) :
    Agree signs r.advance r'.advance := by
  obtain ⟨next, rest, next', rest', hitems, hitems', htail | ⟨hno, _⟩⟩ :=
    h.exists_items (ne_endOfInput_of_number hc)
  · exact advance_agree h.left h.right hitems hitems' htail
  · exact absurd hc (hno v)

/-- Agreeing, both readers can run the rule from where they come to. -/
theorem catchesUp_of_agree {rule : Rule} (h : Agree signs r.advance r'.advance) :
    rule.CatchesUp signs r.advance (rule.behind r') := by
  rcases ha : r.advance with ⟨e | u, r₁⟩ <;> rw [ha] at h
  · obtain ⟨e', r₁', ha', he⟩ := h.error_left
    rw [Rule.behind_of_error ha']
    exact .fails he
  · obtain ⟨r₁', ha', h₁⟩ := h.ok_left
    rw [Rule.behind_of_ok ha']
    exact .goesOn h₁

/-- A reader in front of the signs comes with the rule to where the other one goes on. -/
theorem catchesUp_of_signs {rule : Rule} (hskip : rule.SkipsSigns signs) (hr : r.Faithful)
    (hr' : r'.Faithful) {sp next : Span} {rest front tail : List Span}
    (hitems : r.items = sp :: next :: rest) (hitems' : r'.items = front ++ tail)
    (hfront : front.map Span.text = (signs.map fun s => s.text.toList))
    (htail : tail.map Span.text = (next :: rest).map Span.text) :
    rule.CatchesUp signs r.advance (rule.run r') := by
  obtain ⟨next', rest', rfl, hnext, hrest⟩ := List.map_eq_cons_iff.mp htail
  cases hreading : reading next.text with
  | ok t =>
      obtain ⟨r₁, ha, hpass, hitems₁⟩ :=
        exists_advance hr hitems ⟨t, Span.outcome_eq_ok_iff.mpr hreading⟩
      obtain ⟨r₁', hpass', hrun⟩ := hskip.reads hr' hitems' hfront
        ⟨t, Span.outcome_eq_ok_iff.mpr (hnext ▸ hreading)⟩
      have hitems₁' : r₁'.items = next' :: rest' :=
        List.append_cancel_left (hpass'.items_eq.symm.trans hitems')
      rw [ha, hrun]
      refine .goesOn ⟨hpass.faithful, hpass'.faithful, ?_⟩
      rw [hitems₁, hitems₁', htail]
      exact .past
  | error cause =>
      obtain ⟨r₁, ha⟩ := exists_advance_error hr hitems
        (Span.outcome_eq_error_iff.mpr ⟨cause, hreading, rfl⟩)
      obtain ⟨r₁', hrun⟩ := hskip.fails hr' hitems' hfront
        (Span.outcome_eq_error_iff.mpr ⟨cause, hnext ▸ hreading, rfl⟩)
      rw [ha, hrun]
      exact .fails rfl

/-- **Both readers go on**, the second one through the signs if they come next. -/
theorem Matches.catchesUp {rule : Rule} (hskip : rule.SkipsSigns signs) (h : r.Matches signs r')
    (hc : r.current ≠ .endOfInput) : rule.CatchesUp signs r.advance (rule.behind r') := by
  obtain ⟨next, rest, next', rest', hitems, hitems', htail | ⟨_, htail⟩⟩ := h.exists_items hc
  · exact catchesUp_of_agree (advance_agree h.left h.right hitems hitems' htail)
  · obtain ⟨front, back, hsplit, hfront, hback⟩ := List.map_eq_append_iff.mp htail
    cases front with
    | nil =>
        -- there are no signs at all
        have hsame : back = next' :: rest' := hsplit.symm
        refine catchesUp_of_agree (advance_agree h.left h.right hitems hitems' ?_)
        rw [← hsame, hback]
        exact .past
    | cons first front =>
        obtain ⟨s, _, _, hs, _⟩ := List.map_eq_cons_iff.mp hfront.symm
        rw [hsplit, List.cons_append] at hitems'
        obtain ⟨r₁', ha, hpass, hitems₁⟩ :=
          exists_advance h.right hitems' (Sign.reads_of_text hs.symm)
        rw [Rule.behind_of_ok ha]
        exact catchesUp_of_signs hskip h.left hpass.faithful hitems hitems₁ hfront hback

/-- **So the rule gives the same** behind what both of them look at. -/
theorem Matches.behind_agree {rule : Rule} (hskip : rule.SkipsSigns signs)
    (hrule : rule.Agrees signs) (h : r.Matches signs r') (hc : r.current ≠ .endOfInput) :
    Agree signs (rule.behind r) (rule.behind r') := by
  have hgo := h.catchesUp hskip hc
  rcases ha : r.advance with ⟨e | u, r₁⟩ <;> rw [ha] at hgo
  · obtain ⟨e', r₁', hbehind, he⟩ := hgo.error_left
    rw [Rule.behind_of_error ha, hbehind]
    exact .error he
  · obtain ⟨r₁', hbehind, h₁⟩ := hgo.ok_left
    rw [Rule.behind_of_ok ha, hbehind]
    exact hrule h₁

end Reader

/-! ## The rules -/

namespace Rule

variable {signs : List Sign}

/-- **Signs that amount to plus** leave the sign that is carried along as it is. -/
theorem signed_skipsSigns (hplus : Sign.ofRun signs = .plus) (sign : Sign) :
    SkipsSigns signs ⟨signed sign, signed_le sign⟩ where
  reads := by
    intro r front back next hr hitems hfront hnext
    obtain ⟨r', hpass, hrun⟩ := signed_of_signs hnext sign hr hitems hfront
    rw [hplus] at hrun
    exact ⟨r', hpass, hrun⟩
  fails := by
    intro r front back next e hr hitems hfront hnext
    rcases List.eq_nil_or_concat signs with rfl | ⟨init, last, rfl⟩
    · -- the reader would have to look at what cannot be read
      rw [List.map_nil, List.map_eq_nil_iff] at hfront
      subst hfront
      have hspan : r.span = next := (List.cons.inj hitems).1
      exact absurd (hspan ▸ hr.reads) (Span.not_reads_of_error hnext)
    · rw [List.concat_eq_append, List.map_append] at hfront
      obtain ⟨before, behind, rfl, hbefore, hbehind⟩ := List.map_eq_append_iff.mp hfront
      obtain ⟨sp, rfl, hsp⟩ := List.map_eq_singleton_iff.mp hbehind
      rw [List.append_assoc, List.singleton_append] at hitems
      obtain ⟨r', hpass, hrun⟩ :=
        signed_of_signs (Sign.reads_of_text hsp) sign hr hitems hbefore
      have hitems' : r'.items = sp :: next :: back :=
        List.append_cancel_left (hpass.items_eq.symm.trans hitems)
      have hspan : r'.span = sp := (List.cons.inj hitems').1
      have hcurrent : r'.current.sign? = some last :=
        hpass.faithful.sign?_eq (by rw [hspan, hsp])
      obtain ⟨r₁, ha⟩ := Reader.exists_advance_error hpass.faithful hitems' hnext
      refine ⟨r₁, ?_⟩
      dsimp only
      rw [hrun, signed_eq, hcurrent]
      simp only [ha]

/-- **A chain begins with its first operand**, and so it goes through the signs as that does. -/
theorem SkipsSigns.chain {level : Level} {operand : Rule} (h : operand.SkipsSigns signs) :
    (chain level operand).SkipsSigns signs where
  reads := by
    intro r front back next hr hitems hfront hnext
    obtain ⟨r', hpass, hrun⟩ := h.reads hr hitems hfront hnext
    refine ⟨r', hpass, ?_⟩
    unfold Rule.chain
    dsimp only
    rw [hrun]
  fails := by
    intro r front back next e hr hitems hfront hnext
    obtain ⟨r', hrun⟩ := h.fails hr hitems hfront hnext
    refine ⟨r', ?_⟩
    unfold Rule.chain
    dsimp only
    rw [hrun]

theorem signed_of_sign {sign next : Sign} {r : Reader} (h : r.current.sign? = some next) :
    signed sign r = behind ⟨signed (sign.combine next), signed_le _⟩ r := by
  rw [signed_eq, h]
  rfl

/-- Behind a sign both readers go on. -/
theorem signed_catchesUp (hplus : Sign.ofRun signs = .plus) (sign : Sign) {next : Sign}
    {r r' : Reader} (h : r.Matches signs r') (hs : r.current.sign? = some next) :
    CatchesUp signs ⟨signed (sign.combine next), signed_le _⟩ r.advance (signed sign r') := by
  rw [signed_of_sign (h.current_eq ▸ hs)]
  exact h.catchesUp (signed_skipsSigns hplus _) (Reader.ne_endOfInput_of_sign? hs)

/-- **Signs and the literal behind them** are read alike. -/
theorem signed_agrees (hplus : Sign.ofRun signs = .plus) (sign : Sign) {r r' : Reader}
    (h : r.Matches signs r') : Agree signs (signed sign r) (signed sign r') := by
  fun_induction signed sign r generalizing r' with
  | case1 sign r next hs r₁ ha ih =>
      have hgo := signed_catchesUp hplus sign h hs
      rw [ha] at hgo
      obtain ⟨r₁', hrun, h₁⟩ := hgo.ok_left
      rw [hrun]
      exact ih h₁
  | case2 sign r next hs e r₁ ha =>
      have hgo := signed_catchesUp hplus sign h hs
      rw [ha] at hgo
      obtain ⟨e', r₁', hrun, he⟩ := hgo.error_left
      rw [hrun]
      exact .error he
  | case3 sign r hs value hc r₁ ha =>
      have hgo := h.advance_number hc
      rw [ha] at hgo
      obtain ⟨r₁', ha', h₁⟩ := hgo.ok_left
      rw [signed_eq, h.current_eq, hs, hc, ha', h.text_eq]
      exact .ok h₁
  | case4 sign r hs value hc e r₁ ha =>
      have hgo := h.advance_number hc
      rw [ha] at hgo
      obtain ⟨e', r₁', ha', he⟩ := hgo.error_left
      rw [signed_eq, h.current_eq, hs, hc, ha']
      exact .error he
  | case5 sign r hs hc =>
      rw [signed_eq, h.current_eq, hs]
      cases hcur : r.current with
      | number v => exact absurd hcur (hc v)
      | _ => exact .error rfl

section

variable {level : Level} {operand : Rule}

/-- One step of the loop, with the operator and the operand behind it taken together. -/
theorem joinFrom_behind {left : Value} {r : Reader} {op : Operator}
    (h : r.operator? level = some op) :
    joinFrom level operand left r =
      match operand.behind r with
      | (.error e, r₂) => (.error e, r₂)
      | (.ok right, r₂) =>
        match op.applyAt r.advance.2.span.start left right with
        | .error e => (.error e, r₂)
        | .ok value => joinFrom level operand value r₂ := by
  rw [joinFrom_eq, h, behind]
  rcases r.advance with ⟨e | u, r₁⟩ <;> rfl

/-- **If the operands are read alike, the loop is.** -/
theorem joinFrom_agrees (hskip : operand.SkipsSigns signs) (hx : operand.Agrees signs)
    (left : Value) {r r' : Reader} (h : r.Matches signs r') :
    Agree signs (joinFrom level operand left r) (joinFrom level operand left r') := by
  fun_induction joinFrom level operand left r generalizing r' with
  | case1 left r ho =>
      rw [joinFrom_eq, h.operator?_eq, ho]
      exact .ok h
  | case2 left r op ho e r₁ ha =>
      have hgo := h.behind_agree hskip hx (Reader.ne_endOfInput_of_operator? ho)
      rw [behind_of_error ha] at hgo
      obtain ⟨e', r₁', hr', he⟩ := hgo.error_left
      rw [joinFrom_behind ((h.operator?_eq level).trans ho), hr']
      exact .error he
  | case3 left r op ho r₁ ha e r₂ hr =>
      have hgo := h.behind_agree hskip hx (Reader.ne_endOfInput_of_operator? ho)
      rw [behind_of_ok ha, hr] at hgo
      obtain ⟨e', r₂', hr', he⟩ := hgo.error_left
      rw [joinFrom_behind ((h.operator?_eq level).trans ho), hr']
      exact .error he
  | case4 left r op ho r₁ ha right r₂ hr e he =>
      have hgo := h.behind_agree hskip hx (Reader.ne_endOfInput_of_operator? ho)
      rw [behind_of_ok ha, hr] at hgo
      obtain ⟨r₂', hr', h₂⟩ := hgo.ok_left
      rw [joinFrom_behind ((h.operator?_eq level).trans ho), hr']
      dsimp only
      -- the operation fails in the other place as well
      rw [applyAt_moved (f := fun _ => r'.advance.2.span.start) op r₁.span.start, he]
      exact .error rfl
  | case5 left r op ho r₁ ha right r₂ hr value hv ih =>
      have hgo := h.behind_agree hskip hx (Reader.ne_endOfInput_of_operator? ho)
      rw [behind_of_ok ha, hr] at hgo
      obtain ⟨r₂', hr', h₂⟩ := hgo.ok_left
      rw [joinFrom_behind ((h.operator?_eq level).trans ho), hr']
      dsimp only
      rw [applyAt_moved (f := fun _ => r'.advance.2.span.start) op r₁.span.start, hv]
      exact ih h₂

/-- **Chains are read alike if their operands are.** -/
theorem chain_agrees (hskip : operand.SkipsSigns signs) (hx : operand.Agrees signs) :
    (chain level operand).Agrees signs := by
  intro r r' h
  have hfirst := hx h
  unfold chain
  dsimp only
  generalize operand.run r = p at hfirst ⊢
  generalize operand.run r' = p' at hfirst ⊢
  cases hfirst with
  | ok h₁ => exact joinFrom_agrees hskip hx _ h₁
  | error he => exact .error he

end

section

variable (hplus : Sign.ofRun signs = .plus)

include hplus

theorem factor_skipsSigns : factor.SkipsSigns signs := signed_skipsSigns hplus .plus

theorem factor_agrees : factor.Agrees signs := signed_agrees hplus .plus

theorem term_skipsSigns : term.SkipsSigns signs := (factor_skipsSigns hplus).chain

theorem term_agrees : term.Agrees signs :=
  chain_agrees (factor_skipsSigns hplus) (factor_agrees hplus)

theorem expression_skipsSigns : expression.SkipsSigns signs := (term_skipsSigns hplus).chain

theorem expression_agrees : expression.Agrees signs :=
  chain_agrees (term_skipsSigns hplus) (term_agrees hplus)

end

end Rule

end Calculator
