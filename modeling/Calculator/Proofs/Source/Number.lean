import Calculator.Proofs.Binary64.Nearest
import Calculator.Proofs.Expression.Literal
import Calculator.Proofs.Source.Tiling

/-!
# What a run of digits is read as

Of the number that a run of digits spells, however many they are, only the size matters: an
integer as long as it is one of 64 bits, from there on the nearest double, and where that
would be infinite nothing. **The two limits are met exactly**, 2^63 as well as 2^1024 - 2^970,
and in between no digit is left out of the rounding.

A cursor comes to every maximal run of digits, also behind an error. So this holds of all the
runs of a source, and not only of those in a source that means something.
-/

namespace Calculator

open Binary64

namespace Decimal

/-- **A text spells a real** if it is a run of digits and the number is not too large. -/
theorem real?_eq_none_iff {digits : List Char} :
    real? digits = none ↔
      digits = [] ∨ (∃ c ∈ digits, c.isDigit = false)
        ∨ Magnitude.overflowLimit ≤ decimalValue digits := by
  unfold real?
  split
  · rename_i h
    have hall : ¬ ∃ c ∈ digits, c.isDigit = false := by
      rintro ⟨c, hc, hno⟩
      rw [List.all_eq_true.mp h.2 c hc] at hno
      cases hno
    rw [Option.map_eq_none_iff, Magnitude.round_whole_eq_none_iff, or_iff_right h.1,
      or_iff_right hall]
  · rename_i h
    simp only [true_iff]
    by_cases hnil : digits = []
    · exact .inl hnil
    · refine .inr (.inl ?_)
      by_contra hnone
      push Not at hnone
      exact h ⟨hnil, List.all_eq_true.mpr fun c hc => by simpa using hnone c hc⟩

/-- Of the runs of digits only those are refused that are too large. -/
theorem real?_eq_none_iff_of_numeral {digits : List Char} (hd : Numeral digits) :
    real? digits = none ↔ Magnitude.overflowLimit ≤ decimalValue digits := by
  have hall : ¬ ∃ c ∈ digits, c.isDigit = false := by
    rintro ⟨c, hc, hno⟩
    rw [hd.isDigit c hc] at hno
    cases hno
  rw [real?_eq_none_iff, or_iff_right hd.ne_nil, or_iff_right hall]

/-- **And the real is the nearest one.** -/
theorem exists_isNearest_of_real? {digits : List Char} {x : Binary64} (h : real? digits = some x) :
    ∃ m : Magnitude, x = .finite false m ∧ m.IsNearest (decimalValue digits) := by
  unfold real? at h
  split at h
  · obtain ⟨m, hm, rfl⟩ := Option.map_eq_some_iff.mp h
    exact ⟨m, rfl, Magnitude.isNearest_of_round_whole hm⟩
  · cases h

end Decimal

/-- What a run of digits that spells the number `n` is read as at byte `start`. -/
inductive NumberAt (start n : Nat) : Except Error Token → Prop where
  /-- Up to 2^63 - 1 an integer, -/
  | integer {k : Int64} : n ≤ 0x7FFFFFFFFFFFFFFF → k.toInt = n →
      NumberAt start n (.ok (.number (.integer k)))
  /-- from 2^63 on the nearest double, -/
  | real {m : Magnitude} : 0x8000000000000000 ≤ n → n < Magnitude.overflowLimit →
      m.IsNearest n → NumberAt start n (.ok (.number (.real (.finite false m))))
  /-- and from 2^1024 - 2^970 on nothing. -/
  | tooLarge : Magnitude.overflowLimit ≤ n →
      NumberAt start n (.error ⟨.literalTooLarge, start⟩)

/-- **A run of digits is read by its size.** -/
theorem Span.numberAt_outcome {start : Nat} {digits : List Char} (hd : Numeral digits) :
    NumberAt start (Decimal.decimalValue digits) (Span.outcome ⟨start, digits⟩) := by
  have hok : ∀ t, literal digits = .ok t → Span.outcome ⟨start, digits⟩ = .ok t := fun t ht =>
    Span.outcome_eq_ok_iff.mpr (hd.reading.trans ht)
  have herror : ∀ cause, literal digits = .error cause →
      Span.outcome ⟨start, digits⟩ = .error ⟨cause, start⟩ := fun cause hcause =>
    Span.outcome_eq_error_iff.mpr ⟨cause, hd.reading.trans hcause, rfl⟩
  have hinteger := Decimal.integer?_eq hd.isDigit
  by_cases hr : InRange (Decimal.decimalValue digits)
  · rw [if_pos hr] at hinteger
    rw [hok (.number (.integer (Int64.ofInt (Decimal.decimalValue digits))))
      (by simp only [literal, hinteger])]
    exact .integer (by have := hr.2; omega) (toInt_ofInt hr)
  · rw [if_neg hr] at hinteger
    have hlarge : 0x8000000000000000 ≤ Decimal.decimalValue digits := by
      unfold InRange at hr
      omega
    cases hx : Decimal.real? digits with
    | none =>
        rw [herror .literalTooLarge (by simp only [literal, hinteger, hx])]
        exact .tooLarge ((Decimal.real?_eq_none_iff_of_numeral hd).mp hx)
    | some x =>
        rw [hok (.number (.real x)) (by simp only [literal, hinteger, hx])]
        obtain ⟨m, rfl, hm⟩ := Decimal.exists_isNearest_of_real? hx
        refine .real hlarge (Nat.lt_of_not_le fun hover => ?_) hm
        rw [(Decimal.real?_eq_none_iff_of_numeral hd).mpr hover] at hx
        cases hx

/-! ## The reads that come to it -/

theorem Cursor.pending_afterReads (c : Cursor) (n : Nat) :
    (c.afterReads n).pending = c.pending.drop n := by
  induction n with
  | zero => rfl
  | succ n ih => rw [Cursor.afterReads, Cursor.pending_read, ih, List.tail_drop]

theorem outcome_spanAt (source : String) (n : Nat) :
    (spanAt source n).outcome = outcomeAt source n := Cursor.outcome_span_read _

/-- The reads come to the spans in turn. -/
theorem spanAt_of_getElem? {source : String} {n : Nat} {sp : Span}
    (h : (spans source)[n]? = some sp) : spanAt source n = sp := by
  have hpending := Cursor.pending_afterReads (Cursor.ofSource source) n
  have hn : n < (spans source).length := (List.getElem?_eq_some_iff.mp h).1
  rw [show (Cursor.ofSource source).pending = spans source from rfl,
    List.drop_eq_getElem_cons hn, (List.getElem?_eq_some_iff.mp h).2] at hpending
  rw [spanAt, Cursor.afterReads, Cursor.read, hpending]

/-- The reads come to every maximal run of digits. -/
theorem exists_spanAt_of_maximalRun {source : String} {front digits back : List Char}
    (hsource : source.toList = front ++ (digits ++ back)) (h : MaximalRun front digits back) :
    ∃ n, spanAt source n = ⟨byteSize front, digits⟩ := by
  refine ⟨(spansFrom 0 front).length, spanAt_of_getElem? ?_⟩
  rw [h.spans_eq hsource, List.getElem?_append_right (Nat.le_refl _), Nat.sub_self]
  rfl

/-- **Every run of digits of a source is read by its size**, wherever it stands and however long
it is; and a text is read as a real exactly if it is a run of digits that is not too large, as
the one nearest to it. -/
theorem outcomeAt_maximalRun :
    (∀ (source : String) (front digits back : List Char),
      source.toList = front ++ (digits ++ back) → MaximalRun front digits back →
        (∃ n, spanAt source n = ⟨byteSize front, digits⟩)
          ∧ ∀ n, spanAt source n = ⟨byteSize front, digits⟩ →
            NumberAt (byteSize front) (Decimal.decimalValue digits) (outcomeAt source n))
      ∧ ∀ digits : List Char,
        (Decimal.real? digits = none ↔
          digits = [] ∨ (∃ c ∈ digits, c.isDigit = false)
            ∨ Magnitude.overflowLimit ≤ Decimal.decimalValue digits)
          ∧ ∀ x, Decimal.real? digits = some x →
            ∃ m : Magnitude, x = .finite false m ∧ m.IsNearest (Decimal.decimalValue digits) := by
  refine ⟨fun source front digits back hsource h => ?_, fun digits => ?_⟩
  · refine ⟨exists_spanAt_of_maximalRun hsource h, fun n hn => ?_⟩
    rw [← outcome_spanAt, hn]
    exact Span.numberAt_outcome h.numeral
  · exact ⟨Decimal.real?_eq_none_iff, fun _ => Decimal.exists_isNearest_of_real?⟩

/-- Here the number is 2^63 + 3072, in the middle between two doubles, behind an error and with
zeros in front. -/
theorem outcomeAt_maximalRun_middle :
    ∃ n, spanAt "?*009223372036854778880/2" n = ⟨2, "009223372036854778880".toList⟩
      ∧ ∃ m : Magnitude, m.IsNearest (9223372036854778880 : ℕ)
        ∧ outcomeAt "?*009223372036854778880/2" n = .ok (.number (.real (.finite false m))) := by
  have hrun : MaximalRun ['?', '*'] "009223372036854778880".toList ['/', '2'] :=
    ⟨⟨by decide, List.all_eq_true.mp rfl⟩, by rintro c ⟨⟩; rfl, by rintro c ⟨⟩; rfl⟩
  obtain ⟨⟨n, hn⟩, hread⟩ :=
    outcomeAt_maximalRun.1 "?*009223372036854778880/2" _ _ _ (by decide) hrun
  refine ⟨n, hn, ?_⟩
  have hvalue : Decimal.decimalValue "009223372036854778880".toList = 9223372036854778880 := by
    decide
  have hnumber := hread n hn
  rw [hvalue] at hnumber
  generalize outcomeAt "?*009223372036854778880/2" n = outcome at hnumber ⊢
  cases hnumber with
  | integer hle _ => exact absurd hle (by decide)
  | real _ _ hm => exact ⟨_, hm, rfl⟩
  | tooLarge hle => exact absurd hle (by decide +kernel)

end Calculator
