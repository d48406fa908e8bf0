import Mathlib.Data.Finset.Card
import Mathlib.Data.List.TakeWhile
import Calculator.Proofs.Source.Cut
import Calculator.Proofs.Source.Join

/-!
# The reads of a cursor tile the source

A cursor that is asked for one token after the other goes through its source from front to
back, whatever it meets. A read skips the blanks in front of it, the *gap*, and takes the
text of one span; where that means nothing the read is an error, and the next one goes on
behind it all the same. So **gaps and spans, put one behind the other, are the source**:
nothing is left out and nothing comes twice.

What carries this is `Cursor.Between`, which says where a cursor stands. All that it knows
of the source is what is still to be read and how far on that is. It never stands in the
middle of a run of digits, and that is why the runs it reads are maximal.
-/

namespace Calculator

/-! ## Where a cursor stands -/

/-- The cursor has read `front`, and `back` is still to be read. -/
structure Cursor.Between (c : Cursor) (front back : List Char) : Prop where
  position_eq : c.position = byteSize front
  pending_eq : c.pending = spansFrom (byteSize front) back
  size_eq : c.size = byteSize (front ++ back)
  /-- It stands in no run of digits. -/
  apart : Apart front back

/-- What the text of a span between `front` and `back` is, by what was read there. -/
def Span.Holds (sp : Span) (front back : List Char) : Except Error Token → Prop
  | .ok .endOfInput => sp.text = [] ∧ back = []
  | .ok (.number v) => MaximalRun front sp.text back ∧ literal sp.text = .ok (.number v)
  | .ok t => ∃ op, t.operator? = some op ∧ sp.text = op.text.toList
  | .error ⟨.literalTooLarge, position⟩ =>
    position = sp.start ∧ MaximalRun front sp.text back
      ∧ literal sp.text = .error .literalTooLarge
  | .error ⟨.invalidCharacter c, position⟩ =>
    position = sp.start ∧ sp.text = [c] ∧ isBlank c = false ∧ c.isDigit = false
      ∧ c ∉ ['+', '-', '*', '/']
  | .error _ => False

theorem Cursor.between_ofSource (source : String) :
    (Cursor.ofSource source).Between [] source.toList where
  position_eq := rfl
  pending_eq := rfl
  size_eq := (byteSize_toList source).symm
  apart := apart_nil_left _

/-! ## One read -/

theorem apart_nil_right (front : List Char) : Apart front [] := by
  intro c _ d hd
  cases hd

/-- What stands further to the front does not matter. -/
theorem Apart.append_left {text back : List Char} (h : Apart text back) (hne : text ≠ [])
    (front : List Char) : Apart (front ++ text) back := by
  intro c hc
  refine h c ?_
  rw [List.getLast?_append, List.getLast?_eq_some_getLast hne] at hc
  rw [List.getLast?_eq_some_getLast hne]
  exact hc

/-- **Behind the blanks stands a lexeme**, unless nothing does. -/
theorem exists_lexeme {chars : List Char} (hne : chars ≠ [])
    (hb : ∀ c ∈ chars.head?, isBlank c = false) :
    ∃ text rest, chars = text ++ rest ∧ Lexeme text ∧ Apart text rest ∧ ∀ start,
      spansFrom start chars = ⟨start, text⟩ :: spansFrom (start + byteSize text) rest := by
  cases chars with
  | nil => exact absurd rfl hne
  | cons c rest =>
      have hblank : isBlank c = false := hb c rfl
      cases hd : c.isDigit with
      | false =>
          refine ⟨[c], rest, rfl, .other hblank hd, ?_, fun start => ?_⟩
          · intro d hlast e _ hdigits
            obtain rfl : c = d := Option.some.inj hlast
            rw [hd] at hdigits
            cases hdigits.1
          · rw [spansFrom_other hblank hd]
            rfl
      | true =>
          have hall : ∀ d ∈ c :: rest.takeWhile Char.isDigit, d.isDigit :=
            List.forall_mem_cons.mpr ⟨hd, List.all_eq_true.mp List.all_takeWhile⟩
          refine ⟨c :: rest.takeWhile Char.isDigit, rest.dropWhile Char.isDigit, ?_,
            .digits ⟨List.cons_ne_nil _ _, hall⟩, ?_, fun start => spansFrom_digit hd start rest⟩
          · rw [List.cons_append, List.takeWhile_append_dropWhile]
          · intro d _ e he hdigits
            rw [head?_dropWhile_isDigit rest e he] at hdigits
            cases hdigits.2

/-- A run of digits that a cursor comes to is maximal. -/
theorem maximalRun_of_apart {front gap text rest : List Char} (hd : Numeral text)
    (hfront : Apart front (gap ++ (text ++ rest))) (hb : ∀ c ∈ gap, isBlank c)
    (hrest : Apart text rest) : MaximalRun (front ++ gap) text rest where
  numeral := hd
  before := by
    intro c hc
    cases hg : gap.getLast? with
    | some b =>
        rw [List.getLast?_append, hg] at hc
        cases hc
        exact isDigit_eq_false_of_isBlank (hb c (List.mem_of_getLast? hg))
    | none =>
        -- no blank comes between, so the digits stand right behind the front
        rw [List.getLast?_eq_none_iff] at hg
        subst hg
        rw [List.append_nil] at hc
        obtain ⟨d, digits, rfl⟩ := List.exists_cons_of_ne_nil hd.ne_nil
        have hno := hfront c hc d rfl
        simpa [hd.isDigit d List.mem_cons_self] using hno
  after := hrest.head?_of_numeral hd

/-- **What is read at a lexeme**: never the end of input. -/
theorem holds_of_lexeme (sp : Span) (front rest : List Char) (hw : Lexeme sp.text)
    (hrun : Numeral sp.text → MaximalRun front sp.text rest) :
    sp.Holds front rest sp.outcome ∧ sp.outcome ≠ .ok .endOfInput := by
  obtain ⟨start, text⟩ := sp
  unfold Span.outcome
  dsimp only at hw hrun ⊢
  cases hw with
  | digits hd =>
      rw [hd.reading]
      cases hl : literal text with
      | ok t =>
          obtain ⟨v, rfl⟩ := literal_eq_ok hl
          exact ⟨⟨hrun hd, hl⟩, nofun⟩
      | error cause =>
          cases literal_eq_error hl
          exact ⟨⟨rfl, hrun hd, hl⟩, nofun⟩
  | @other c hb hd =>
      cases hr : reading [c] with
      | ok t =>
          cases spells_of_reading (.inr (.other hb hd)) hr with
          | number hdigits _ =>
              have hdigit := hdigits.isDigit c List.mem_cons_self
              rw [hd] at hdigit
              cases hdigit
          | plus => exact ⟨⟨.add, rfl, rfl⟩, nofun⟩
          | minus => exact ⟨⟨.sub, rfl, rfl⟩, nofun⟩
          | star => exact ⟨⟨.mul, rfl, rfl⟩, nofun⟩
          | slash => exact ⟨⟨.div, rfl, rfl⟩, nofun⟩
      | error cause =>
          obtain ⟨rfl, hc⟩ := reading_single_error hd hr
          exact ⟨⟨rfl, rfl, hb, hd, not_mem_of_ofChar? hc⟩, nofun⟩

/-- Only at the end of input there is no text. -/
theorem Span.Holds.text_ne_nil {sp : Span} {front back : List Char}
    {outcome : Except Error Token} (h : sp.Holds front back outcome)
    (hne : outcome ≠ .ok .endOfInput) : sp.text ≠ [] := by
  cases outcome with
  | ok t =>
      cases t with
      | number v => exact h.1.numeral.ne_nil
      | endOfInput => exact absurd rfl hne
      | _ =>
          obtain ⟨op, _, htext⟩ := h
          rw [htext]
          cases op <;> decide
  | error e =>
      obtain ⟨cause, position⟩ := e
      cases cause with
      | invalidCharacter c => simp [h.2.1]
      | literalTooLarge => exact h.2.1.numeral.ne_nil
      | _ => exact h.elim

/-- A read took the blanks `gap` and the text of a span from `back`. -/
structure Cursor.Took (c : Cursor) (outcome : Except Error Token)
    (front back gap rest : List Char) : Prop where
  back_eq : back = gap ++ (c.span.text ++ rest)
  blank : ∀ ch ∈ gap, isBlank ch
  start_eq : c.span.start = byteSize (front ++ gap)
  holds : c.span.Holds (front ++ gap) rest outcome
  end_iff : outcome = .ok .endOfInput ↔ ∀ ch ∈ back, isBlank ch
  between : c.Between (front ++ gap ++ c.span.text) rest

section

variable {c : Cursor} {front back gap text rest : List Char}

/-- Where only blanks are left, they are the gap, and then comes the end of input. -/
theorem Cursor.Between.took_end (h : c.Between front back) (hb : ∀ ch ∈ back, isBlank ch) :
    c.read.2.Took c.read.1 front back back [] := by
  have hpending : c.pending = [] := by
    rw [h.pending_eq, ← List.append_nil back, spansFrom_blanks hb, spansFrom_nil]
  have hread : c.read = (.ok .endOfInput, { c with span := ⟨c.size, []⟩ }) := by
    rw [Cursor.read, hpending]
  rw [hread]
  refine ⟨by simp, hb, h.size_eq, ⟨rfl, rfl⟩, ⟨fun _ => hb, fun _ => rfl⟩, ?_⟩
  refine ⟨?_, ?_, ?_, apart_nil_right _⟩
  · rw [List.append_nil, ← h.size_eq]
    rfl
  · rw [spansFrom_nil]
    exact hpending
  · rw [List.append_nil, List.append_nil]
    exact h.size_eq

/-- Where a lexeme stands behind the blanks, it is the text of the span. -/
theorem Cursor.Between.took_lexeme (h : c.Between front (gap ++ (text ++ rest)))
    (hb : ∀ ch ∈ gap, isBlank ch) (hw : Lexeme text) (hapart : Apart text rest)
    (hspans : ∀ start, spansFrom start (text ++ rest)
      = ⟨start, text⟩ :: spansFrom (start + byteSize text) rest) :
    c.read.2.Took c.read.1 front (gap ++ (text ++ rest)) gap rest := by
  have hread : c.read
      = (Span.outcome ⟨byteSize (front ++ gap), text⟩,
          { c with
            span := ⟨byteSize (front ++ gap), text⟩
            pending := spansFrom (byteSize (front ++ gap ++ text)) rest }) := by
    rw [Cursor.read, h.pending_eq, spansFrom_blanks hb, hspans, byteSize_append _ text,
      byteSize_append]
  obtain ⟨hholds, hne⟩ := holds_of_lexeme ⟨byteSize (front ++ gap), text⟩ (front ++ gap) rest hw
    fun hd => maximalRun_of_apart hd h.apart hb hapart
  rw [hread]
  refine ⟨rfl, hb, rfl, hholds, ⟨fun hend => absurd hend hne, fun hall => ?_⟩, ?_⟩
  · -- the lexeme would have to be blank as well
    obtain ⟨ch, more, rfl⟩ := List.exists_cons_of_ne_nil hw.ne_nil
    have hno := hw.isBlank_eq_false ch List.mem_cons_self
    rw [hall ch (by simp)] at hno
    cases hno
  · refine ⟨?_, rfl, ?_, hapart.append_left hw.ne_nil _⟩
    · rw [byteSize_append _ text]
      rfl
    · change c.size = byteSize (front ++ gap ++ text ++ rest)
      rw [List.append_assoc, List.append_assoc]
      exact h.size_eq

/-- **One read** takes the blanks in front of the cursor and one span. -/
theorem Cursor.Between.took (h : c.Between front back) :
    c.read.2.Took c.read.1 front back (back.takeWhile isBlank)
      (back.drop ((back.takeWhile isBlank).length + c.read.2.span.text.length)) := by
  suffices h : ∃ rest, c.read.2.Took c.read.1 front back (back.takeWhile isBlank) rest by
    obtain ⟨rest, h⟩ := h
    -- there is only one rest that it can be
    have hrest : back.drop ((back.takeWhile isBlank).length + c.read.2.span.text.length)
        = rest := by
      refine (congrArg (List.drop _) h.back_eq).trans ?_
      rw [← List.append_assoc, ← List.length_append, List.drop_left]
    rw [hrest]
    exact h
  by_cases hnil : back.dropWhile isBlank = []
  · have hb : ∀ ch ∈ back, isBlank ch := List.dropWhile_eq_nil_iff.mp hnil
    rw [List.takeWhile_eq_self_iff.mpr hb]
    exact ⟨[], h.took_end hb⟩
  · have hb : ∀ ch ∈ back.takeWhile isBlank, isBlank ch :=
      List.all_eq_true.mp List.all_takeWhile
    have hhead : ∀ ch ∈ (back.dropWhile isBlank).head?, isBlank ch = false := by
      intro ch hch
      have hno := List.head?_dropWhile_not isBlank back
      rw [Option.mem_def.mp hch] at hno
      simpa using hno
    obtain ⟨text, rest, hsplit, hw, hapart, hspans⟩ := exists_lexeme hnil hhead
    have hback : back.takeWhile isBlank ++ (text ++ rest) = back := by
      rw [← hsplit, List.takeWhile_append_dropWhile]
    refine ⟨rest, ?_⟩
    generalize back.takeWhile isBlank = gap at hb hback
    subst hback
    exact h.took_lexeme hb hw hapart (hsplit ▸ hspans)

end

/-! ## All the reads -/

/-- The cursor behind `n` reads. -/
def Cursor.afterReads (c : Cursor) : Nat → Cursor
  | 0 => c
  | n + 1 => (c.afterReads n).read.2

/-- What the read with number `n` of a source gives, the first being number 0. -/
def outcomeAt (source : String) (n : Nat) : Except Error Token :=
  ((Cursor.ofSource source).afterReads n).read.1

/-- The span that the read with number `n` leaves behind. -/
def spanAt (source : String) (n : Nat) : Span :=
  ((Cursor.ofSource source).afterReads (n + 1)).span

/-- The gaps and spans of the first `n` reads, one behind the other. -/
def covered (source : String) (gap : Nat → List Char) (n : Nat) : List Char :=
  (List.range n).flatMap fun i => gap i ++ (spanAt source i).text

/-- The gaps and the spans of the reads, in turn, are the source. -/
structure Tiling (source : String) (gap : Nat → List Char) : Prop where
  /-- Nothing but blanks stands in a gap. -/
  blank : ∀ n, ∀ c ∈ gap n, isBlank c
  /-- A span starts behind the gap in front of it, -/
  start_eq : ∀ n, (spanAt source n).start = byteSize (covered source gap n ++ gap n)
  /-- and where it stops, the next gap starts. -/
  stop_eq : ∀ n, (spanAt source n).stop = byteSize (covered source gap (n + 1))
  /-- What was read before, the gap, the span and what is still to be read are the source. -/
  tile : ∀ n, ∃ rest,
    source.toList = covered source gap n ++ gap n ++ (spanAt source n).text ++ rest
      ∧ (spanAt source n).Holds (covered source gap n ++ gap n) rest (outcomeAt source n)
      ∧ (outcomeAt source n = .ok .endOfInput
        ↔ ∀ c ∈ gap n ++ (spanAt source n).text ++ rest, isBlank c)
  /-- Only the end of input is empty. -/
  start_lt_stop : ∀ n, outcomeAt source n ≠ .ok .endOfInput →
    (spanAt source n).start < (spanAt source n).stop
  start_le_stop : ∀ n, (spanAt source n).start ≤ (spanAt source n).stop
  stop_le : ∀ n, (spanAt source n).stop ≤ source.utf8ByteSize
  /-- At the end of input the whole source is covered, and there it stays. -/
  ended : ∀ n, outcomeAt source n = .ok .endOfInput →
    covered source gap n ++ gap n = source.toList
      ∧ ∀ m, n ≤ m → outcomeAt source m = .ok .endOfInput
        ∧ spanAt source m = ⟨source.utf8ByteSize, []⟩
  /-- It comes after no more reads than the source has bytes, -/
  ends : ∃ n ≤ source.utf8ByteSize, outcomeAt source n = .ok .endOfInput
  /-- so no more than that give something else. -/
  few : ∀ n, ((Finset.range n).filter fun i => outcomeAt source i ≠ .ok .endOfInput).card
    ≤ source.utf8ByteSize

section

variable (source : String)

/-- What is still to be read behind `n` reads. -/
def leftAt : Nat → List Char
  | 0 => source.toList
  | n + 1 => (leftAt n).drop
      (((leftAt n).takeWhile isBlank).length + (spanAt source n).text.length)

/-- The gap in front of the read with number `n`. -/
def gapAt (n : Nat) : List Char := (leftAt source n).takeWhile isBlank

theorem covered_succ (gap : Nat → List Char) (n : Nat) :
    covered source gap (n + 1) = covered source gap n ++ gap n ++ (spanAt source n).text := by
  simp [covered, List.range_succ]

/-- **Where the cursor stands behind `n` reads.** -/
theorem between_afterReads (n : Nat) :
    ((Cursor.ofSource source).afterReads n).Between (covered source (gapAt source) n)
      (leftAt source n) := by
  induction n with
  | zero => exact Cursor.between_ofSource source
  | succ n ih =>
      rw [covered_succ]
      exact ih.took.between

/-- **What the read with number `n` takes.** -/
theorem took_at (n : Nat) :
    ((Cursor.ofSource source).afterReads (n + 1)).Took (outcomeAt source n)
      (covered source (gapAt source) n) (leftAt source n) (gapAt source n)
      (leftAt source (n + 1)) :=
  (between_afterReads source n).took

theorem leftAt_eq (n : Nat) :
    leftAt source n = gapAt source n ++ ((spanAt source n).text ++ leftAt source (n + 1)) :=
  (took_at source n).back_eq

/-- **Nothing is left out, and nothing comes twice.** -/
theorem covered_append_leftAt (n : Nat) :
    covered source (gapAt source) n ++ leftAt source n = source.toList := by
  induction n with
  | zero => rfl
  | succ n ih => rw [← ih, leftAt_eq source n, covered_succ, List.append_assoc, List.append_assoc]

theorem outcomeAt_eq_end_iff (n : Nat) :
    outcomeAt source n = .ok .endOfInput ↔ ∀ c ∈ leftAt source n, isBlank c :=
  (took_at source n).end_iff

theorem start_spanAt (n : Nat) :
    (spanAt source n).start = byteSize (covered source (gapAt source) n ++ gapAt source n) :=
  (took_at source n).start_eq

theorem stop_spanAt (n : Nat) :
    (spanAt source n).stop = byteSize (covered source (gapAt source) (n + 1)) := by
  rw [covered_succ, byteSize_append, ← start_spanAt]
  rfl

theorem byteSize_covered_le (n : Nat) :
    byteSize (covered source (gapAt source) n) ≤ source.utf8ByteSize := by
  rw [← byteSize_toList, ← covered_append_leftAt source n, byteSize_append]
  exact Nat.le_add_right _ _

/-- At the end of input the whole source is covered. -/
theorem covered_of_end {n : Nat} (h : outcomeAt source n = .ok .endOfInput) :
    covered source (gapAt source) n ++ gapAt source n = source.toList := by
  have hb := (outcomeAt_eq_end_iff source n).mp h
  rw [gapAt, List.takeWhile_eq_self_iff.mpr hb, covered_append_leftAt]

theorem spanAt_of_end {n : Nat} (h : outcomeAt source n = .ok .endOfInput) :
    spanAt source n = ⟨source.utf8ByteSize, []⟩ := by
  have hholds := (took_at source n).holds
  rw [h] at hholds
  have hstart := start_spanAt source n
  rw [covered_of_end source h, byteSize_toList] at hstart
  have htext : (spanAt source n).text = [] := hholds.1
  rw [← hstart, ← htext]

/-- **Behind the end of input comes the end of input.** -/
theorem outcomeAt_of_end {n m : Nat} (h : outcomeAt source n = .ok .endOfInput) (hle : n ≤ m) :
    outcomeAt source m = .ok .endOfInput := by
  induction m, hle using Nat.le_induction with
  | base => exact h
  | succ m _ ih =>
      rw [outcomeAt_eq_end_iff] at ih ⊢
      -- what is left then was left before
      intro c hc
      refine ih c ?_
      rw [leftAt_eq]
      exact List.mem_append_right _ (List.mem_append_right _ hc)

/-- What is no end of input takes at least one byte. -/
theorem start_lt_stop_spanAt {n : Nat} (h : outcomeAt source n ≠ .ok .endOfInput) :
    (spanAt source n).start < (spanAt source n).stop := by
  have hne := (took_at source n).holds.text_ne_nil h
  have hpos := List.length_pos_iff.mpr hne
  have hle := length_le_byteSize (spanAt source n).text
  rw [Span.stop]
  unfold spanAt at hle ⊢
  omega

/-- **As long as the end of input has not come, every read takes a byte.** -/
theorem le_byteSize_covered {n : Nat}
    (h : ∀ i < n, outcomeAt source i ≠ .ok .endOfInput) :
    n ≤ byteSize (covered source (gapAt source) n) := by
  induction n with
  | zero => exact Nat.zero_le _
  | succ n ih =>
      have hle := ih fun i hi => h i (Nat.lt_succ_of_lt hi)
      have hlt := start_lt_stop_spanAt source (h n (Nat.lt_succ_self n))
      rw [start_spanAt, stop_spanAt, byteSize_append] at hlt
      omega

/-- So the end of input comes. -/
theorem exists_end : ∃ n ≤ source.utf8ByteSize, outcomeAt source n = .ok .endOfInput := by
  by_contra hnone
  push Not at hnone
  have hle := le_byteSize_covered source fun i (hi : i < source.utf8ByteSize + 1) =>
    hnone i (Nat.le_of_lt_succ hi)
  have hsize := byteSize_covered_le source (source.utf8ByteSize + 1)
  omega

/-- Each of the reads that give something else stands in front of the end of input. -/
theorem card_reads_le (n : Nat) :
    ((Finset.range n).filter fun i => outcomeAt source i ≠ .ok .endOfInput).card
      ≤ source.utf8ByteSize := by
  obtain ⟨last, hlast, hend⟩ := exists_end source
  have hsubset : ((Finset.range n).filter fun i => outcomeAt source i ≠ .ok .endOfInput)
      ⊆ Finset.range last := by
    intro i hi
    rw [Finset.mem_filter] at hi
    rw [Finset.mem_range]
    by_contra hlt
    exact hi.2 (outcomeAt_of_end source hend (Nat.le_of_not_lt hlt))
  have hcard := Finset.card_le_card hsubset
  rw [Finset.card_range] at hcard
  exact Nat.le_trans hcard hlast

/-- **The reads of a source tile it**, for as long as one reads on and whatever is read. -/
theorem reads_tile_source : ∃ gap, Tiling source gap := by
  refine ⟨gapAt source, ?_⟩
  constructor
  · exact fun n => (took_at source n).blank
  · exact start_spanAt source
  · exact stop_spanAt source
  · intro n
    have hleft := leftAt_eq source n
    refine ⟨leftAt source (n + 1), ?_, (took_at source n).holds, ?_⟩
    · rw [List.append_assoc, List.append_assoc, ← hleft, covered_append_leftAt]
    · rw [List.append_assoc, ← hleft, outcomeAt_eq_end_iff]
  · exact fun n => start_lt_stop_spanAt source
  · exact fun n => Nat.le_add_right _ _
  · exact fun n => stop_spanAt source n ▸ byteSize_covered_le source (n + 1)
  · exact fun n h => ⟨covered_of_end source h, fun m hle =>
      ⟨outcomeAt_of_end source h hle, spanAt_of_end source (outcomeAt_of_end source h hle)⟩⟩
  · exact exists_end source
  · exact card_reads_le source

end

end Calculator
