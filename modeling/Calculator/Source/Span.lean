import Calculator.Decimal.Digits
import Calculator.Error
import Calculator.Text.Blank
import Calculator.Text.Bytes

/-!
# The spans of a source

Blanks aside, a source is a sequence of spans: **a digit and all the digits that
follow it make one span, and every other character makes one by itself**. What a
span means is decided by its text alone. A run of digits is a number, unless it is
too large for one; a single character is an operator or sign, or else invalid; and
the empty span, which stands only behind all the others, is the end of input.

The tokens are declared, each with the pattern of its text, and blanks are skipped. The
scan is what is documented of a scanner generated from such declarations: at each place
**the longest text that a pattern matches** makes a token, and where no pattern matches,
the one character that stands there is an error.

A text that means nothing is a span like any other. So reading on behind an error is
no special case, and the spans together with the blanks between them make up the
whole source.
-/

namespace Calculator

/-- A stretch of the source: the byte it starts at and the characters it holds. -/
structure Span where
  start : Nat
  text : List Char
deriving DecidableEq

/-- What a run of digits means: an integer if it fits, else a real, else nothing. -/
def literal (digits : List Char) : Except Cause Token :=
  match Decimal.integer? digits with
  | some n => .ok (.number (.integer n))
  | none =>
    match Decimal.real? digits with
    | some x => .ok (.number (.real x))
    | none => .error .literalTooLarge

/-- What the text of a span means. -/
def reading : List Char → Except Cause Token
  | [] => .ok .endOfInput
  | c :: rest =>
    if c.isDigit then literal (c :: rest)
    else
      match Token.ofChar? c with
      | some token => .ok token
      | none => .error (.invalidCharacter c)

namespace Span

/-- The byte behind the span. -/
def stop (s : Span) : Nat := s.start + byteSize s.text

/-- The token that stands at the span, or the error that none does. -/
def outcome (s : Span) : Except Error Token :=
  match reading s.text with
  | .ok token => .ok token
  | .error cause => .error ⟨cause, s.start⟩

/-- Puts the spans of `chars` in front of those found before, so that the last comes first. -/
def foundFrom (found : List Span) (start : Nat) (chars : List Char) : List Span :=
  match chars with
  | [] => found
  | c :: rest =>
    if isBlank c then foundFrom found (start + c.utf8Size) rest
    else if c.isDigit then
      let digits := c :: rest.takeWhile Char.isDigit
      foundFrom (⟨start, digits⟩ :: found) (start + byteSize digits)
        (rest.dropWhile Char.isDigit)
    else foundFrom (⟨start, [c]⟩ :: found) (start + c.utf8Size) rest
termination_by chars.length
decreasing_by
  · simp
  · exact Nat.lt_succ_of_le (List.dropWhile_sublist Char.isDigit).length_le
  · simp

end Span

/-- The spans of `chars`, whose first character stands at byte `start`. -/
def spansFrom (start : Nat) (chars : List Char) : List Span :=
  (Span.foundFrom [] start chars).reverse

/-- The spans of a source, from first to last. -/
def spans (source : String) : List Span := spansFrom 0 source.toList

/-- The tokens of a source, or the first error among them. -/
def tokenize (source : String) : Except Error (List Token) :=
  (spans source).mapM Span.outcome

/-! ## The spans, one after the other -/

theorem Span.foundFrom_append (found before : List Span) (start : Nat) (chars : List Char) :
    Span.foundFrom (found ++ before) start chars = Span.foundFrom found start chars ++ before := by
  fun_induction Span.foundFrom found start chars with
  | case1 => simp [Span.foundFrom]
  | case2 found start c rest hb ih => rw [Span.foundFrom, if_pos hb, ih]
  | case3 found start c rest hb hd digits ih =>
      rw [Span.foundFrom, if_neg hb, if_pos hd, ← ih, List.cons_append]
  | case4 found start c rest hb hd ih =>
      rw [Span.foundFrom, if_neg hb, if_neg hd, ← ih, List.cons_append]

theorem Span.reverse_foundFrom (found : List Span) (start : Nat) (chars : List Char) :
    (Span.foundFrom found start chars).reverse = found.reverse ++ spansFrom start chars := by
  have h := Span.foundFrom_append [] found start chars
  rw [List.nil_append] at h
  rw [h, List.reverse_append, spansFrom]

@[simp] theorem spansFrom_nil (start : Nat) : spansFrom start [] = [] := by
  simp [spansFrom, Span.foundFrom]

/-- A blank makes no span. -/
theorem spansFrom_blank {c : Char} (h : isBlank c) (start : Nat) (rest : List Char) :
    spansFrom start (c :: rest) = spansFrom (start + c.utf8Size) rest := by
  rw [spansFrom, Span.foundFrom, if_pos h, spansFrom]

/-- A digit makes a span together with the digits behind it. -/
theorem spansFrom_digit {c : Char} (h : c.isDigit) (start : Nat) (rest : List Char) :
    spansFrom start (c :: rest) =
      ⟨start, c :: rest.takeWhile Char.isDigit⟩
        :: spansFrom (start + byteSize (c :: rest.takeWhile Char.isDigit))
            (rest.dropWhile Char.isDigit) := by
  have hb : ¬ isBlank c := fun hc => by
    rw [isDigit_eq_false_of_isBlank hc] at h
    cases h
  rw [spansFrom, Span.foundFrom, if_neg hb, if_pos h, Span.reverse_foundFrom]
  rfl

/-- Any other character makes a span by itself. -/
theorem spansFrom_other {c : Char} (hb : isBlank c = false) (hd : c.isDigit = false) (start : Nat)
    (rest : List Char) :
    spansFrom start (c :: rest) = ⟨start, [c]⟩ :: spansFrom (start + c.utf8Size) rest := by
  rw [spansFrom, Span.foundFrom, if_neg (by simp [hb]), if_neg (by simp [hd]),
    Span.reverse_foundFrom]
  rfl

end Calculator
