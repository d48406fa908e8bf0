import Calculator.Proofs.Source.Cut

/-!
# Texts put together

A character means the same whatever stands around it, with one exception: digits that
come to stand next to each other make one run. Where that does not happen, `Apart`,
**the spans of two texts put together are those of the one and then those of the other**.

So there are only two ways in which a text acts on what stands behind it. It moves it
further on, by as many bytes as it has, and if it is blank it does nothing else.
-/

namespace Calculator

/-- No run of digits goes across from `front` to `back`. -/
def Apart (front back : List Char) : Prop :=
  ∀ c ∈ front.getLast?, ∀ d ∈ back.head?, ¬ (c.isDigit ∧ d.isDigit)

/-- What a position becomes when `size` bytes are put into the source at byte `place`. -/
def pushed (place size : Nat) (position : Nat) : Nat :=
  if place ≤ position then position + size else position

/-- What it becomes when they are taken out again. -/
def pulled (place size : Nat) (position : Nat) : Nat :=
  if place + size ≤ position then position - size else position

theorem pushed_of_lt {place size position : Nat} (h : position < place) :
    pushed place size position = position := if_neg (Nat.not_le_of_lt h)

theorem pushed_of_le {place size position : Nat} (h : place ≤ position) :
    pushed place size position = position + size := if_pos h

theorem pulled_pushed (place size position : Nat) :
    pulled place size (pushed place size position) = position := by
  unfold pulled pushed
  split <;> split <;> omega

/-- The span with the same text in another place. -/
def Span.moved (f : Nat → Nat) (sp : Span) : Span := ⟨f sp.start, sp.text⟩

/-! ## Texts that do not touch -/

theorem apart_nil_left (back : List Char) : Apart [] back := by
  intro c hc
  cases hc

theorem Apart.of_append {as bs back : List Char} (h : Apart (as ++ bs) back) : Apart bs back := by
  intro c hc
  refine h c ?_
  rw [Option.mem_def] at hc ⊢
  rw [List.getLast?_append, hc, Option.some_or]

theorem Apart.of_cons {a : Char} {bs back : List Char} (h : Apart (a :: bs) back) :
    Apart bs back :=
  (show Apart ([a] ++ bs) back from h).of_append

/-- Behind a run of digits that goes no further stands no digit. -/
theorem Apart.head?_of_numeral {digits back : List Char} (h : Apart digits back)
    (hd : Numeral digits) : ∀ c ∈ back.head?, c.isDigit = false := by
  intro c hc
  have hdigit := hd.isDigit _ (List.getLast_mem hd.ne_nil)
  have hno := h _ (List.getLast?_eq_some_getLast hd.ne_nil) c hc
  simpa [hdigit] using hno

/-- Blanks keep digits apart. -/
theorem Apart.blanks {front back blanks : List Char} (h : Apart front back)
    (hb : ∀ c ∈ blanks, isBlank c) : Apart front (blanks ++ back) := by
  cases blanks with
  | nil => exact h
  | cons b blanks =>
      intro c _ d hd hdigits
      have hblank := isDigit_eq_false_of_isBlank (hb b List.mem_cons_self)
      cases hd
      rw [hblank] at hdigits
      cases hdigits.2

/-! ## Their spans -/

/-- **The spans of two texts put together**, no run of digits going across. -/
theorem spansFrom_append {front back : List Char} (h : Apart front back) (start : Nat) :
    spansFrom start (front ++ back)
      = spansFrom start front ++ spansFrom (start + byteSize front) back := by
  induction front using chars_induction generalizing start with
  | nil => simp
  | blank c rest hb ih =>
      rw [List.cons_append, spansFrom_blank hb, spansFrom_blank hb, ih h.of_cons, byteSize_cons,
        Nat.add_assoc]
  | run digits rest hd hrest ih =>
      -- the run ends where it ended before, be it in front of the rest or of the back
      have hhead : ∀ c ∈ (rest ++ back).head?, c.isDigit = false := by
        cases rest with
        | nil =>
            rw [List.append_nil] at h
            exact h.head?_of_numeral hd
        | cons c rest => exact hrest
      rw [List.append_assoc, spansFrom_run hd hhead, spansFrom_run hd hrest, ih h.of_append,
        byteSize_append, List.cons_append, Nat.add_assoc]
  | other c rest hb hd ih =>
      rw [List.cons_append, spansFrom_other hb hd, spansFrom_other hb hd, ih h.of_cons,
        byteSize_cons, List.cons_append, Nat.add_assoc]

theorem MaximalRun.apart {front digits back : List Char} (h : MaximalRun front digits back) :
    Apart front (digits ++ back) := by
  intro c hc d _ hdigits
  rw [h.before c hc] at hdigits
  cases hdigits.1

/-- **Every maximal run of digits is a span.** -/
theorem MaximalRun.spans_eq {source : String} {front digits back : List Char}
    (h : MaximalRun front digits back) (hsource : source.toList = front ++ (digits ++ back)) :
    spans source = spansFrom 0 front
      ++ ⟨byteSize front, digits⟩ :: spansFrom (byteSize front + byteSize digits) back := by
  rw [spans, hsource, spansFrom_append h.apart, spansFrom_run h.numeral h.after, Nat.zero_add]

/-- Blanks only move what stands behind them. -/
theorem spansFrom_blanks {blanks : List Char} (hb : ∀ c ∈ blanks, isBlank c) (start : Nat)
    (back : List Char) :
    spansFrom start (blanks ++ back) = spansFrom (start + byteSize blanks) back := by
  induction blanks generalizing start with
  | nil => rfl
  | cons b blanks ih =>
      obtain ⟨hhead, htail⟩ := List.forall_mem_cons.mp hb
      rw [List.cons_append, spansFrom_blank hhead, ih htail, byteSize_cons, Nat.add_assoc]

/-- A text that stands further on has its spans further on. -/
theorem spansFrom_add (start size : Nat) (chars : List Char) :
    spansFrom (start + size) chars = (spansFrom start chars).map (Span.moved (· + size)) := by
  induction chars using chars_induction generalizing start with
  | nil => simp
  | blank c rest hb ih =>
      rw [spansFrom_blank hb, spansFrom_blank hb, Nat.add_right_comm, ih]
  | run digits rest hd hrest ih =>
      rw [spansFrom_run hd hrest, spansFrom_run hd hrest, Nat.add_right_comm, ih, List.map_cons]
      rfl
  | other c rest hb hd ih =>
      rw [spansFrom_other hb hd, spansFrom_other hb hd, Nat.add_right_comm, ih, List.map_cons]
      rfl

/-- The spans of a text start in it. -/
theorem start_of_mem_spansFrom {start : Nat} {chars : List Char} {sp : Span}
    (h : sp ∈ spansFrom start chars) : start ≤ sp.start ∧ sp.start < start + byteSize chars := by
  induction chars using chars_induction generalizing start with
  | nil => simp at h
  | blank c rest hb ih =>
      rw [spansFrom_blank hb] at h
      have := ih h
      rw [byteSize_cons]
      omega
  | run digits rest hd hrest ih =>
      rw [spansFrom_run hd hrest] at h
      have hpos : 0 < digits.length := List.length_pos_iff.mpr hd.ne_nil
      have hle := length_le_byteSize digits
      rw [byteSize_append]
      rcases List.mem_cons.mp h with rfl | h
      · exact ⟨Nat.le_refl _, by dsimp only; omega⟩
      · have := ih h
        omega
  | other c rest hb hd ih =>
      rw [spansFrom_other hb hd] at h
      have hpos := c.utf8Size_pos
      rw [byteSize_cons]
      rcases List.mem_cons.mp h with rfl | h
      · exact ⟨Nat.le_refl _, by dsimp only; omega⟩
      · have := ih h
        omega

/-- Where no position of a text is moved, its spans stay as they are. -/
theorem map_moved_of_fixed {f : Nat → Nat} {start : Nat} {chars : List Char}
    (h : ∀ p < start + byteSize chars, f p = p) :
    (spansFrom start chars).map (Span.moved f) = spansFrom start chars := by
  refine (List.map_congr_left fun sp hsp => ?_).trans (List.map_id _)
  obtain ⟨_, hlt⟩ := start_of_mem_spansFrom hsp
  rw [Span.moved, h _ hlt, id_eq]

/-- Where all of them are, the text stands further on. -/
theorem map_moved_of_shifted {f : Nat → Nat} {start size : Nat}
    (h : ∀ p, start ≤ p → f p = p + size) (chars : List Char) :
    (spansFrom start chars).map (Span.moved f) = spansFrom (start + size) chars := by
  rw [spansFrom_add]
  refine List.map_congr_left fun sp hsp => ?_
  obtain ⟨hle, _⟩ := start_of_mem_spansFrom hsp
  rw [Span.moved, h _ hle, Span.moved]

/-- **Blanks put into a source move the spans behind them**, and change nothing else. -/
theorem spans_insert_blanks {front blanks back : String} (hb : ∀ c ∈ blanks.toList, isBlank c)
    (h : Apart front.toList back.toList) :
    spans (front ++ blanks ++ back)
      = (spans (front ++ back)).map
          (Span.moved (pushed front.utf8ByteSize blanks.utf8ByteSize)) := by
  have hwith : spans (front ++ blanks ++ back)
      = spansFrom 0 front.toList
        ++ spansFrom (byteSize front.toList + byteSize blanks.toList) back.toList := by
    rw [spans, String.toList_append, String.toList_append, List.append_assoc,
      spansFrom_append (h.blanks hb), spansFrom_blanks hb, Nat.zero_add]
  have hwithout : spans (front ++ back)
      = spansFrom 0 front.toList ++ spansFrom (byteSize front.toList) back.toList := by
    rw [spans, String.toList_append, spansFrom_append h, Nat.zero_add]
  rw [hwith, hwithout, List.map_append, ← byteSize_toList front, ← byteSize_toList blanks,
    map_moved_of_fixed fun p hp => pushed_of_lt (by rwa [Nat.zero_add] at hp),
    map_moved_of_shifted fun p hp => pushed_of_le hp]

end Calculator
