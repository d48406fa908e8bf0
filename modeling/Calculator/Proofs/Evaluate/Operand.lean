import Calculator.Proofs.Evaluate.Meaning
import Calculator.Proofs.Expression.InStep
import Calculator.Proofs.Source.Join

/-!
# Sources that are one operand

The smallest expressions are a run of signs and a run of digits, and written without blanks
they are read just as they are built. **The value of such a source is the value of the
operand.** If something follows that cannot be read, the evaluation never gets further: the
reader has to look at what stands behind the literal before it can give its value.
-/

namespace Calculator

theorem apart_of_head? {digits back : List Char}
    (h : ∀ c ∈ back.head?, c.isDigit = false) : Apart digits back := by
  intro c _ d hd hdigits
  rw [h d hd] at hdigits
  cases hdigits.2

/-- A text has the same spans wherever it stands. -/
theorem texts_spansFrom (start : Nat) (chars : List Char) :
    (spansFrom start chars).map Span.text = (spansFrom 0 chars).map Span.text := by
  have hmoved := spansFrom_add 0 start chars
  rw [Nat.zero_add] at hmoved
  rw [hmoved, List.map_map]
  rfl

/-- Each sign of a run is a span. -/
theorem texts_spansFrom_signs (signs : List Sign) (start : Nat) (back : List Char) :
    (spansFrom start ((signs.map fun s => s.text.toList).flatten ++ back)).map Span.text
      = (signs.map fun s => s.text.toList) ++ (spansFrom 0 back).map Span.text := by
  induction signs generalizing start with
  | nil => exact texts_spansFrom start back
  | cons s signs ih =>
      obtain ⟨c, hc, hblank, hdigit⟩ :
          ∃ c, s.text.toList = [c] ∧ isBlank c = false ∧ c.isDigit = false := by
        cases s with
        | plus => exact ⟨'+', rfl, rfl, rfl⟩
        | minus => exact ⟨'-', rfl, rfl, rfl⟩
      rw [List.map_cons, List.flatten_cons, hc, List.append_assoc, List.singleton_append,
        spansFrom_other hblank hdigit, List.map_cons, ih, List.cons_append]

/-- **An operand written without blanks** has its words for spans. -/
theorem Factor.texts_spansFrom (f : Factor) (start : Nat) :
    (spansFrom start f.words.flatten).map Span.text = f.words := by
  rw [Factor.words, List.flatten_append, List.flatten_singleton, texts_spansFrom_signs,
    spansFrom_lexeme (.digits f.numeral), List.map_singleton]

/-- Each of its words reads, if the literal does. -/
theorem Factor.exists_reading {f : Factor} {v : Value}
    (h : literal f.digits = .ok (.number v)) : ∀ w ∈ f.words, ∃ t, reading w = .ok t := by
  intro w hw
  rcases List.mem_append.mp hw with hw | hw
  · obtain ⟨s, _, rfl⟩ := List.mem_map.mp hw
    obtain ⟨t, ht, _⟩ := s.reading_text
    exact ⟨t, ht⟩
  · rw [List.mem_singleton.mp hw, f.numeral.reading]
    exact ⟨_, h⟩

/-- **A source that is one operand** has the value of the operand. -/
theorem evaluate_factor {source : String} {f : Factor} {lit v : Value}
    (hsource : source.toList = f.words.flatten) (hlit : literal f.digits = .ok (.number lit))
    (hv : f.value = .ok v) : evaluate source = .ok v := by
  have htexts : (spans source).map Span.text = f.words := by
    rw [spans, hsource, f.texts_spansFrom]
  rw [evaluate_eq_ok_iff]
  refine ⟨fun sp hsp => ?_, .single (.single f), ?_, ?_⟩
  · obtain ⟨t, ht⟩ := Factor.exists_reading hlit sp.text
      (htexts ▸ List.mem_map_of_mem hsp)
    exact ⟨t, Span.outcome_eq_ok_iff.mpr ht⟩
  · rw [htexts, Expression.words_single, Term.words_single]
  · rw [Expression.value, Chain.valueWith_single, Term.value, Chain.valueWith_single, hv]

/-! ## The rule on signs and a literal -/

theorem Sign.reads_of_text {s : Sign} {sp : Span} (h : sp.text = s.text.toList) : sp.Reads := by
  obtain ⟨t, ht, _⟩ := s.reading_text
  exact ⟨t, Span.outcome_eq_ok_iff.mpr (h ▸ ht)⟩

/-- A reader at the text of a sign looks at the sign. -/
theorem Reader.Faithful.sign?_eq {r : Reader} (h : r.Faithful) {s : Sign}
    (htext : r.span.text = s.text.toList) : r.current.sign? = some s := by
  obtain ⟨t, ht, hsign⟩ := s.reading_text
  rw [h.current_eq (htext ▸ ht), hsign]

/-- **The rule goes through the signs**, and what they amount to goes along. -/
theorem Rule.signed_of_signs {signs : List Sign} {read : List Span} {last : Span}
    {rest : List Span} (hlast : last.Reads) (sign : Sign) {r : Reader} (hr : r.Faithful)
    (hitems : r.items = read ++ last :: rest)
    (hread : read.map Span.text = signs.map fun s => s.text.toList) :
    ∃ r', r.Passes r' read ∧ signed sign r = signed (sign.combine (Sign.ofRun signs)) r' := by
  induction signs generalizing read sign r with
  | nil =>
      rw [List.map_nil, List.map_eq_nil_iff] at hread
      subst hread
      exact ⟨r, .refl hr, by cases sign <;> rfl⟩
  | cons s signs ih =>
      obtain ⟨sp, read, rfl, htext, hread⟩ := List.map_eq_cons_iff.mp hread
      -- the next one is a sign or the last, so the reader comes to look at it
      obtain ⟨next, more, hnext, hreads⟩ :
          ∃ next more, read ++ last :: rest = next :: more ∧ next.Reads := by
        cases read with
        | nil => exact ⟨last, rest, rfl, hlast⟩
        | cons next more =>
            obtain ⟨s', _, _, hs', _⟩ := List.map_eq_cons_iff.mp hread.symm
            exact ⟨next, more ++ last :: rest, rfl, Sign.reads_of_text hs'.symm⟩
      rw [List.cons_append, hnext] at hitems
      obtain ⟨r₁, ha, hpass, hitems₁⟩ := Reader.exists_advance hr hitems hreads
      obtain ⟨r', hpass', hrun⟩ := ih (sign.combine s) hpass.faithful (hitems₁.trans hnext.symm)
        hread
      have hspan : r.span = sp := (List.cons.inj hitems).1
      have hcurrent : r.current.sign? = some s := hr.sign?_eq (by rw [hspan, htext])
      refine ⟨r', hpass.trans hpass', ?_⟩
      rw [signed_eq, hcurrent]
      simp only [ha]
      rw [hrun, Sign.ofRun_cons, Sign.combine_assoc]

/-- **It comes to look at the literal**, whatever signs came before. -/
theorem Rule.signed_of_words {digits : List Char} {lit : Value} (hd : Numeral digits)
    (hlit : literal digits = .ok (.number lit)) {signs : List Sign} (sign : Sign) {r : Reader}
    (hr : r.Faithful) {read : List Span} {next : Span} {rest : List Span}
    (hitems : r.items = read ++ next :: rest)
    (hwords : read.map Span.text = signs.map (fun s => s.text.toList) ++ [digits]) :
    ∃ front sp r', read = front ++ [sp] ∧ sp.text = digits ∧ r.Passes r' front
      ∧ r'.items = sp :: next :: rest ∧ r'.current = .number lit
      ∧ signed sign r = signed (sign.combine (Sign.ofRun signs)) r' := by
  obtain ⟨front, last, rfl, hfront, hlast⟩ := List.map_eq_append_iff.mp hwords
  obtain ⟨sp, rfl, htext⟩ := List.map_eq_singleton_iff.mp hlast
  have hreading : reading sp.text = .ok (.number lit) := by rw [htext, hd.reading, hlit]
  rw [List.append_assoc, List.singleton_append] at hitems
  obtain ⟨r', hpass, hrun⟩ :=
    signed_of_signs ⟨_, Span.outcome_eq_ok_iff.mpr hreading⟩ sign hr hitems hfront
  have hitems' : r'.items = sp :: next :: rest :=
    List.append_cancel_left (hpass.items_eq.symm.trans hitems)
  have hspan : r'.span = sp := (List.cons.inj hitems').1
  exact ⟨front, sp, r', rfl, htext, hpass, hitems',
    hpass.faithful.current_eq (hspan ▸ hreading), hrun⟩

/-- Behind signs and a literal stands what cannot be read: that is the error. -/
theorem Rule.signed_of_unreadable {digits : List Char} {lit : Value} {bad : Span} {e : Error}
    (hd : Numeral digits) (hlit : literal digits = .ok (.number lit))
    (hbad : bad.outcome = .error e) {signs : List Sign} {sign : Sign} {r : Reader}
    {read rest : List Span} (hr : r.Faithful) (hitems : r.items = read ++ bad :: rest)
    (hread : read.map Span.text = signs.map (fun s => s.text.toList) ++ [digits]) :
    ∃ r', signed sign r = (.error e, r') := by
  obtain ⟨_, _, r₁, _, _, hpass, hitems₁, hcurrent, hrun⟩ :=
    signed_of_words hd hlit sign hr hitems hread
  obtain ⟨r', ha⟩ := Reader.exists_advance_error hpass.faithful hitems₁ hbad
  exact ⟨r', by rw [hrun, signed_eq, hcurrent, ha]; rfl⟩

theorem Reader.whole_of_factor_error {r r' : Reader} {e : Error}
    (h : Rule.factor.run r = (.error e, r')) : r.whole = .error e := by
  have hterm : Rule.term.run r = (.error e, r') := by
    rw [Rule.term, Rule.chain]
    dsimp only
    rw [h]
  have hexpression : Rule.expression.run r = (.error e, r') := by
    rw [Rule.expression, Rule.chain]
    dsimp only
    rw [hterm]
  rw [Reader.whole, hexpression]

/-- **A source that goes on behind an operand with an invalid character** has that for an error. -/
theorem evaluate_factor_invalid {source : String} {f : Factor} {lit : Value} {c : Char}
    {rest : List Char} (hsource : source.toList = f.words.flatten ++ c :: rest)
    (hlit : literal f.digits = .ok (.number lit)) (hblank : isBlank c = false)
    (hdigit : c.isDigit = false) (hc : Token.ofChar? c = none) :
    evaluate source = .error ⟨.invalidCharacter c, byteSize f.words.flatten⟩ := by
  have hbad : Span.outcome ⟨byteSize f.words.flatten, [c]⟩
      = .error ⟨.invalidCharacter c, byteSize f.words.flatten⟩ := by
    rw [Span.outcome, reading, if_neg (by simp [hdigit]), hc]
  have happart : Apart f.words.flatten (c :: rest) :=
    apart_of_head? fun d hd => by cases hd; exact hdigit
  have hspans : spans source = spansFrom 0 f.words.flatten
      ++ ⟨byteSize f.words.flatten, [c]⟩
        :: spansFrom (byteSize f.words.flatten + c.utf8Size) rest := by
    rw [spans, hsource, spansFrom_append happart, Nat.zero_add,
      spansFrom_other hblank hdigit]
  have htexts := f.texts_spansFrom 0
  generalize spansFrom 0 f.words.flatten = read at hspans htexts
  have hitems := items_eq source
  rw [hspans, List.append_assoc, List.cons_append] at hitems
  cases hr : Reader.ofSource source with
  | error e =>
      -- the first item is a word of the operand and can be read
      obtain ⟨bad, _, hitems', hbad'⟩ := Reader.ofSource_error hr
      cases read with
      | nil => exact absurd htexts.symm f.words_ne_nil
      | cons first read =>
          obtain rfl : first = bad := (List.cons.inj (hitems.symm.trans hitems')).1
          obtain ⟨t, ht⟩ := Factor.exists_reading hlit first.text
            (htexts ▸ List.mem_map_of_mem List.mem_cons_self)
          exact absurd ⟨t, Span.outcome_eq_ok_iff.mpr ht⟩ (Span.not_reads_of_error hbad')
  | ok r =>
      obtain ⟨hfaithful, hritems⟩ := Reader.ofSource_ok hr
      obtain ⟨r', hr'⟩ : ∃ r', Rule.factor.run r = (.error _, r') :=
        Rule.signed_of_unreadable f.numeral hlit hbad hfaithful (hritems.trans hitems) htexts
      rw [evaluate, hr]
      exact Reader.whole_of_factor_error hr'

end Calculator
