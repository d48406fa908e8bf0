import Calculator.Source.Cursor

/-!
# What the text of a span can be

A span holds either a run of digits or one other character, and nothing else; the end
of input is the empty text. `Lexeme` says so, and `Spells` says which text stands for
which token. On the texts that occur in a source `reading` and `Spells` are the same,
so that a proof about tokens can go over to the texts and back.

The characters of a source fall into blanks, maximal runs of digits and single other
characters. `chars_induction` takes them off in these portions, which is how every
statement about `spansFrom` is proved.
-/

namespace Calculator

/-- A text of digits, of at least one. -/
structure Numeral (text : List Char) : Prop where
  ne_nil : text ≠ []
  isDigit : ∀ c ∈ text, c.isDigit

/-- The texts of the spans of a source. -/
inductive Lexeme : List Char → Prop where
  | digits {text : List Char} : Numeral text → Lexeme text
  | other {c : Char} : isBlank c = false → c.isDigit = false → Lexeme [c]

/-- The text stands for the token. -/
inductive Spells : List Char → Token → Prop where
  | number {text : List Char} {v : Value} : Numeral text → literal text = .ok (.number v) →
      Spells text (.number v)
  | plus : Spells ['+'] .plus
  | minus : Spells ['-'] .minus
  | star : Spells ['*'] .star
  | slash : Spells ['/'] .slash
  | endOfInput : Spells [] .endOfInput

theorem Lexeme.ne_nil {text : List Char} (h : Lexeme text) : text ≠ [] := by
  cases h with
  | digits h => exact h.ne_nil
  | other _ _ => simp

/-- Blanks are in no lexeme. -/
theorem Lexeme.isBlank_eq_false {text : List Char} (h : Lexeme text) :
    ∀ c ∈ text, isBlank c = false := by
  intro c hc
  cases h with
  | digits h =>
      cases hb : isBlank c with
      | false => rfl
      | true =>
          have hdigit := h.isDigit c hc
          rw [isDigit_eq_false_of_isBlank hb] at hdigit
          cases hdigit
  | other hb _ => exact List.mem_singleton.mp hc ▸ hb

/-! ## Taking a source apart -/

/-- A maximal run of digits makes one span. -/
theorem spansFrom_run {digits rest : List Char} (h : Numeral digits)
    (hrest : ∀ c ∈ rest.head?, c.isDigit = false) (start : Nat) :
    spansFrom start (digits ++ rest)
      = ⟨start, digits⟩ :: spansFrom (start + byteSize digits) rest := by
  cases digits with
  | nil => exact absurd rfl h.ne_nil
  | cons d digits =>
      have htail : ∀ c ∈ digits, c.isDigit := fun c hc => h.isDigit c (List.mem_cons_of_mem d hc)
      have hend : rest.takeWhile Char.isDigit = [] ∧ rest.dropWhile Char.isDigit = rest := by
        cases rest with
        | nil => exact ⟨rfl, rfl⟩
        | cons c rest =>
            have hc : c.isDigit = false := hrest c rfl
            simp [hc]
      have htake : (digits ++ rest).takeWhile Char.isDigit = digits := by
        rw [List.takeWhile_append_of_pos htail, hend.1, List.append_nil]
      have hdrop : (digits ++ rest).dropWhile Char.isDigit = rest := by
        rw [List.dropWhile_append_of_pos htail, hend.2]
      rw [List.cons_append, spansFrom_digit (h.isDigit d List.mem_cons_self), htake, hdrop]

/-- A lexeme by itself makes one span. -/
theorem spansFrom_lexeme {text : List Char} (h : Lexeme text) (start : Nat) :
    spansFrom start text = [⟨start, text⟩] := by
  cases h with
  | digits h =>
      have hrun := @spansFrom_run text [] h nofun start
      rw [List.append_nil, spansFrom_nil] at hrun
      exact hrun
  | other hb hd => rw [spansFrom_other hb hd, spansFrom_nil]

theorem head?_dropWhile_isDigit (chars : List Char) :
    ∀ c ∈ (chars.dropWhile Char.isDigit).head?, c.isDigit = false := by
  intro c hc
  have h := List.head?_dropWhile_not Char.isDigit chars
  rw [Option.mem_def.mp hc] at h
  simpa using h

/-- **Blanks, maximal runs of digits and single other characters** are all there is. -/
theorem chars_induction {motive : List Char → Prop} (nil : motive [])
    (blank : ∀ c rest, isBlank c = true → motive rest → motive (c :: rest))
    (run : ∀ digits rest, Numeral digits → (∀ c ∈ rest.head?, c.isDigit = false) →
      motive rest → motive (digits ++ rest))
    (other : ∀ c rest, isBlank c = false → c.isDigit = false → motive rest → motive (c :: rest))
    (chars : List Char) : motive chars := by
  have h : ∀ n chars, chars.length = n → motive chars := by
    intro n
    induction n using Nat.strongRecOn with
    | ind n ih =>
      intro chars hn
      cases chars with
      | nil => exact nil
      | cons c rest =>
          have hrest : motive rest := ih rest.length (by simp at hn; omega) rest rfl
          cases hb : isBlank c with
          | true => exact blank c rest hb hrest
          | false =>
            cases hd : c.isDigit with
            | false => exact other c rest hb hd hrest
            | true =>
              have hlen := (List.dropWhile_sublist Char.isDigit (l := rest)).length_le
              have hback : motive (rest.dropWhile Char.isDigit) :=
                ih _ (by simp at hn; omega) _ rfl
              have hall : ∀ d ∈ c :: rest.takeWhile Char.isDigit, d.isDigit := by
                intro d hmem
                rcases List.mem_cons.mp hmem with rfl | hmem
                · exact hd
                · exact List.all_eq_true.mp List.all_takeWhile d hmem
              -- the digits in front are a maximal run, for `dropWhile` stops at no digit
              have h := run (c :: rest.takeWhile Char.isDigit) _ ⟨by simp, hall⟩
                (head?_dropWhile_isDigit rest) hback
              rwa [List.cons_append, List.takeWhile_append_dropWhile] at h
  exact h _ chars rfl

/-- Every span of a source holds a lexeme. -/
theorem lexeme_of_mem_spansFrom {start : Nat} {chars : List Char} :
    ∀ sp ∈ spansFrom start chars, Lexeme sp.text := by
  induction chars using chars_induction generalizing start with
  | nil => simp
  | blank c rest hb ih => rw [spansFrom_blank hb]; exact ih
  | run digits rest hd hrest ih =>
      intro sp hsp
      rw [spansFrom_run hd hrest] at hsp
      rcases List.mem_cons.mp hsp with rfl | hsp
      · exact .digits hd
      · exact ih sp hsp
  | other c rest hb hd ih =>
      intro sp hsp
      rw [spansFrom_other hb hd] at hsp
      rcases List.mem_cons.mp hsp with rfl | hsp
      · exact .other hb hd
      · exact ih sp hsp

theorem lexeme_of_mem_spans {source : String} {sp : Span} (h : sp ∈ spans source) :
    Lexeme sp.text := lexeme_of_mem_spansFrom sp h

/-! ## Texts and tokens -/

theorem Numeral.reading {text : List Char} (h : Numeral text) :
    Calculator.reading text = literal text := by
  cases text with
  | nil => exact absurd rfl h.ne_nil
  | cons c rest => rw [Calculator.reading, if_pos (h.isDigit c List.mem_cons_self)]

/-- A run of digits stands for a number or for nothing. -/
theorem literal_eq_ok {text : List Char} {t : Token} (h : literal text = .ok t) :
    ∃ v, t = .number v := by
  unfold literal at h
  split at h
  · cases h
    exact ⟨_, rfl⟩
  · split at h
    · cases h
      exact ⟨_, rfl⟩
    · cases h

/-- And for nothing only if it is too large. -/
theorem literal_eq_error {text : List Char} {cause : Cause} (h : literal text = .error cause) :
    cause = .literalTooLarge := by
  unfold literal at h
  split at h
  · cases h
  · split at h
    · cases h
    · cases h
      rfl

theorem ofChar?_eq_some {c : Char} {t : Token} (h : Token.ofChar? c = some t) :
    Spells [c] t := by
  unfold Token.ofChar? at h
  split at h
  case h_5 => cases h
  all_goals
    cases h
    constructor

theorem not_mem_of_ofChar? {c : Char} (h : Token.ofChar? c = none) : c ∉ ['+', '-', '*', '/'] := by
  intro hc
  simp only [List.mem_cons, List.not_mem_nil, or_false] at hc
  rcases hc with rfl | rfl | rfl | rfl <;> cases h

/-- A character that makes no token by itself is invalid. -/
theorem reading_single_error {c : Char} {cause : Cause} (hd : c.isDigit = false)
    (h : reading [c] = .error cause) : cause = .invalidCharacter c ∧ Token.ofChar? c = none := by
  rw [reading, if_neg (by simp [hd])] at h
  split at h
  · cases h
  · rename_i hc
    cases h
    exact ⟨rfl, hc⟩

/-- Whatever the text, there are two reasons for it to mean nothing. -/
theorem reading_eq_error {text : List Char} {cause : Cause} (h : reading text = .error cause) :
    cause = .literalTooLarge ∨ ∃ c rest, text = c :: rest ∧ cause = .invalidCharacter c := by
  unfold reading at h
  split at h
  · cases h
  · split at h
    · exact .inl (literal_eq_error h)
    · split at h
      · cases h
      · cases h
        exact .inr ⟨_, _, rfl, rfl⟩

/-- **What a text of a source reads as is what it spells.** -/
theorem spells_of_reading {text : List Char} {t : Token} (hw : text = [] ∨ Lexeme text)
    (h : reading text = .ok t) : Spells text t := by
  rcases hw with rfl | hw
  · cases h
    exact .endOfInput
  · cases hw with
    | digits hd =>
        rw [hd.reading] at h
        obtain ⟨v, rfl⟩ := literal_eq_ok h
        exact .number hd h
    | @other c hb hd =>
        rw [reading, if_neg (by simp [hd])] at h
        split at h
        · rename_i hc
          cases h
          exact ofChar?_eq_some hc
        · cases h

/-- And what it spells is what it reads as. -/
theorem Spells.reading {text : List Char} {t : Token} (h : Spells text t) :
    reading text = .ok t := by
  cases h with
  | number hd hl => rw [hd.reading, hl]
  | _ => rfl

/-- The end of input is spelled by no lexeme. -/
theorem Lexeme.reading_ne_endOfInput {text : List Char} (h : Lexeme text) :
    Calculator.reading text ≠ .ok .endOfInput := by
  intro hend
  have hspells := spells_of_reading (.inr h) hend
  cases hspells
  exact h.ne_nil rfl

theorem Spells.numeral {text : List Char} {v : Value} (h : Spells text (.number v)) :
    Numeral text ∧ literal text = .ok (.number v) := by
  cases h with
  | number hd hl => exact ⟨hd, hl⟩

/-- A sign is spelled in one way. -/
theorem Spells.text_of_sign {text : List Char} {t : Token} {sign : Sign} (h : Spells text t)
    (hs : t.sign? = some sign) : text = sign.text.toList := by
  cases h <;> cases hs <;> rfl

/-- An operator is spelled in one way. -/
theorem Spells.text_of_operator {text : List Char} {t : Token} {op : Operator} (h : Spells text t)
    (ho : t.operator? = some op) : text = op.text.toList := by
  cases h <;> cases ho <;> rfl

namespace Span

/-- A token stands at the span, and no error. -/
def Reads (sp : Span) : Prop := ∃ t, sp.outcome = .ok t

theorem outcome_eq_ok_iff {sp : Span} {t : Token} :
    sp.outcome = .ok t ↔ reading sp.text = .ok t := by
  unfold outcome
  split <;> rename_i h <;> simp [h]

theorem outcome_eq_error_iff {sp : Span} {e : Error} :
    sp.outcome = .error e ↔ ∃ cause, reading sp.text = .error cause ∧ e = ⟨cause, sp.start⟩ := by
  unfold outcome
  split <;> rename_i h <;> simp [h, eq_comm]

theorem not_reads_of_error {sp : Span} {e : Error} (h : sp.outcome = .error e) : ¬ sp.Reads := by
  intro hreads
  obtain ⟨t, ht⟩ := hreads
  rw [h] at ht
  cases ht

end Span

/-- A read gives what stands at the span that it leaves behind, also at the end. -/
theorem Cursor.outcome_span_read (c : Cursor) : c.read.2.span.outcome = c.read.1 := by
  unfold Cursor.read
  cases c.pending <;> rfl

theorem Cursor.pending_read (c : Cursor) : c.read.2.pending = c.pending.tail := by
  unfold Cursor.read
  cases hp : c.pending with
  | nil => simp
  | cons sp rest => rfl

end Calculator
