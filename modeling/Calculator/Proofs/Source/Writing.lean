import Calculator.Proofs.Evaluate.Printed
import Calculator.Proofs.Expression.Finite

/-!
# Tokens written out and read again

A list of tokens is written out by putting blanks of any kind in front of each. **What is
written is what is read**, on one condition: two numbers must not touch, or else they are one.

A number is written as its value is printed, and this tells an integer from a real although
both are runs of digits. An integer is below 2^63; a real from 2^63 on is a whole number, and
the shortest decimal for it is more than 2^63, so that it is again too large for an integer
and rounds to the double it came from.
-/

namespace Calculator

open Binary64 Decimal

/-! ## Single tokens -/

namespace Token

/-- How the token stands in a source. -/
def written : Token → List Char
  | number v => v.text.toList
  | plus => ['+']
  | minus => ['-']
  | star => ['*']
  | slash => ['/']
  | endOfInput => []

/-- The token can be read in a source, so a number is no negative integer and no real below
2^63. -/
structure IsWritable (t : Token) : Prop where
  ne_endOfInput : t ≠ endOfInput
  isLexed : t.IsLexed

end Token

/-- A number as large as this is no integer, and is read as the double that it rounds to. -/
theorem literal_toDigits_of_round {n : Nat} {m : Magnitude} (hn : 0x8000000000000000 ≤ n)
    (hround : Magnitude.round (n <<< fractionPlaces) 1 = some m) :
    literal (Nat.toDigits 10 n) = .ok (.number (.real (.finite false m))) := by
  have hr : ¬ InRange (signedNat false n) := by
    change ¬ InRange n
    unfold InRange
    omega
  exact (Factor.value_printed_of_not_inRange hr hround).1

/-- A number smaller than that is an integer. -/
theorem literal_toDigits_of_lt {n : Nat} (hn : n < 0x8000000000000000) :
    literal (Nat.toDigits 10 n) = .ok (.number (.integer (Int64.ofInt n))) := by
  have hr : InRange n := by
    unfold InRange
    omega
  have hinteger : integer? (Nat.toDigits 10 n) = some (Int64.ofInt n) := by
    have hdigits := integer?_eq (Factor.printed false n).isDigit
    rw [Factor.decimalValue_printed, if_pos hr] at hdigits
    exact hdigits
  simp only [literal, hinteger]

/-- **What a literal can be read as, its printed text is read as.** -/
theorem Value.IsLexed.literal_text {v : Value} (h : v.IsLexed) :
    Numeral v.text.toList ∧ literal v.text.toList = .ok (.number v) := by
  cases v with
  | integer n =>
      have hn : ¬ n.toInt < 0 := Int.not_lt.mpr h
      have htext : (Value.integer n).text.toList = Nat.toDigits 10 n.toInt.natAbs := by
        rw [toList_text_integer, Factor.flatten_words_printed]
        simp [hn]
      have hlt : n.toInt.natAbs < 0x8000000000000000 := by
        have := (inRange_toInt n).2
        omega
      rw [htext, literal_toDigits_of_lt hlt, Int.natAbs_of_nonneg h, Int64.ofInt_toInt]
      exact ⟨(Factor.printed false _).numeral, rfl⟩
  | real x =>
      cases x with
      | finite negative m =>
          cases negative with
          | true => exact h.elim
          | false =>
              have hm : Magnitude.integerLimit.units ≤ m.units := by
                rw [Magnitude.units_integerLimit]
                exact h
              -- from 2^52 on there are no fractions
              have hwhole : m.IsWhole := by
                by_contra hno
                have hlt := Magnitude.units_lt_of_not_isWhole hno
                have hle : 0x10000000000000 <<< fractionPlaces ≤ m.units :=
                  Nat.le_trans (shiftLeft_mono (by decide) _) h
                exact Nat.not_le_of_lt hlt hle
              obtain ⟨n, hn, htext, hround⟩ := ticksText_of_isWhole hwhole
              have hlarge := lt_of_integerLimit_le hn hround hm
              rw [toList_text_real, htext]
              exact ⟨(Factor.printed false n).numeral,
                literal_toDigits_of_round (Nat.le_of_lt hlarge) hround⟩
      | _ => exact h.elim

namespace Token.IsWritable

variable {t : Token}

/-- **A token that can be read is read where it is written.** -/
theorem spells (h : t.IsWritable) : Spells t.written t := by
  cases t with
  | number v =>
      obtain ⟨hnumeral, hliteral⟩ := Value.IsLexed.literal_text h.isLexed
      exact .number hnumeral hliteral
  | endOfInput => exact absurd rfl h.ne_endOfInput
  | _ => constructor

theorem lexeme (h : t.IsWritable) : Lexeme t.written := by
  cases t with
  | number v => exact .digits (Value.IsLexed.literal_text h.isLexed).1
  | endOfInput => exact absurd rfl h.ne_endOfInput
  | _ => exact .other rfl rfl

end Token.IsWritable

/-- Only numbers have digits. -/
theorem Token.isSome_value?_of_isDigit {t : Token} {c : Char} (hc : c ∈ t.written)
    (hdigit : c.isDigit) : t.value?.isSome := by
  cases t with
  | number v => rfl
  | endOfInput => cases hc
  | _ =>
      rw [List.mem_singleton.mp hc] at hdigit
      cases hdigit

/-! ## Lists of tokens -/

/-- A token and what stands in front of it. -/
structure Piece where
  gap : List Char
  token : Token

namespace Piece

def text (p : Piece) : List Char := p.gap ++ p.token.written

/-- The pieces can be put together: there is nothing but blanks between the tokens, and between
two numbers there is one at least. -/
structure Spaced (pieces : List Piece) : Prop where
  isBlank : ∀ p ∈ pieces, ∀ c ∈ p.gap, isBlank c
  isWritable : ∀ p ∈ pieces, p.token.IsWritable
  separated : pieces.IsChain fun p q => p.token.value?.isSome → q.token.value?.isSome → q.gap ≠ []

theorem Spaced.tail {p : Piece} {pieces : List Piece} (h : Spaced (p :: pieces)) :
    Spaced pieces where
  isBlank q hq := h.isBlank q (List.mem_cons_of_mem p hq)
  isWritable q hq := h.isWritable q (List.mem_cons_of_mem p hq)
  separated := (List.isChain_cons.mp h.separated).2

/-- The pieces one after the other, and what stands behind them. -/
def join (pieces : List Piece) (trail : List Char) : List Char :=
  pieces.flatMap text ++ trail

theorem join_cons (p : Piece) (pieces : List Piece) (trail : List Char) :
    join (p :: pieces) trail = p.gap ++ (p.token.written ++ join pieces trail) := by
  rw [join, List.flatMap_cons, text, join, List.append_assoc, List.append_assoc]

/-- **No two numbers touch**, so no run of digits goes across. -/
theorem Spaced.apart {p : Piece} {pieces : List Piece} (h : Spaced (p :: pieces))
    {trail : List Char} (htrail : ∀ c ∈ trail, Calculator.isBlank c) :
    Apart p.token.written (join pieces trail) := by
  intro c hc d hd hdigits
  have hp := Token.isSome_value?_of_isDigit (List.mem_of_getLast? hc) hdigits.1
  have hd_blank : ¬ Calculator.isBlank d := fun hb => by
    rw [isDigit_eq_false_of_isBlank hb] at hdigits
    cases hdigits.2
  cases pieces with
  | nil => exact hd_blank (htrail d (List.mem_of_head? hd))
  | cons q pieces =>
      rw [join_cons] at hd
      cases hgap : q.gap with
      | cons b gap =>
          rw [hgap] at hd
          cases hd
          exact hd_blank (h.tail.isBlank q List.mem_cons_self d (hgap ▸ List.mem_cons_self))
      | nil =>
          -- then the next token is no number, and begins with no digit
          have hne := (h.isWritable q (by simp)).lexeme.ne_nil
          rw [hgap, List.nil_append, List.head?_append_of_ne_nil _ hne] at hd
          have hq := Token.isSome_value?_of_isDigit (List.mem_of_head? hd) hdigits.2
          exact (List.isChain_cons.mp h.separated).1 q rfl hp hq hgap

/-- **The spans of what is written out** are the tokens as they are written. -/
theorem Spaced.texts_spansFrom {pieces : List Piece} (h : Spaced pieces) {trail : List Char}
    (htrail : ∀ c ∈ trail, Calculator.isBlank c) (start : Nat) :
    (spansFrom start (join pieces trail)).map Span.text
      = pieces.map fun p => p.token.written := by
  induction pieces generalizing start with
  | nil =>
      have hspans := spansFrom_blanks htrail start []
      rw [List.append_nil, spansFrom_nil] at hspans
      rw [join, List.flatMap_nil, List.nil_append, hspans]
      rfl
  | cons p pieces ih =>
      rw [join_cons, spansFrom_blanks (h.isBlank p List.mem_cons_self),
        spansFrom_append (h.apart htrail),
        spansFrom_lexeme (h.isWritable p List.mem_cons_self).lexeme, List.map_append,
        ih h.tail, List.map_cons]
      rfl

/-- **What is written out is read as it was.** -/
theorem Spaced.tokenize_join {pieces : List Piece} (h : Spaced pieces) {trail : List Char}
    (htrail : ∀ c ∈ trail, Calculator.isBlank c) :
    tokenize (String.ofList (join pieces trail)) = .ok (pieces.map token) := by
  rw [tokenize_eq_ok_iff, spans, String.toList_ofList, h.texts_spansFrom htrail,
    List.forall₂_map_left_iff, List.forall₂_map_right_iff, List.forall₂_same]
  exact fun p hp => (h.isWritable p hp).spells

end Piece

/-- What a text spells can be written out, unless the text is empty. -/
theorem Spells.isWritable {text : List Char} {t : Token} (h : Spells text t) (hne : text ≠ []) :
    t.IsWritable := by
  cases h with
  | number _ hl => exact ⟨nofun, isLexed_of_literal hl⟩
  | endOfInput => exact absurd rfl hne
  | _ => exact ⟨nofun, trivial⟩

/-- **What has been read can be written out.** -/
theorem isWritable_of_tokenize {source : String} {ts : List Token}
    (h : tokenize source = .ok ts) : ∀ t ∈ ts, t.IsWritable := by
  rw [tokenize_eq_ok_iff, List.forall₂_map_left_iff] at h
  intro t ht
  obtain ⟨i, hi, rfl⟩ := List.getElem_of_mem ht
  have hi' : i < (spans source).length := h.length_eq ▸ hi
  exact (h.get hi' hi).isWritable (lexeme_of_mem_spans (List.getElem_mem hi')).ne_nil

end Calculator
