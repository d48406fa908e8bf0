import Calculator.Proofs.Decimal.Layout
import Calculator.Proofs.Evaluate.Integral
import Calculator.Proofs.Evaluate.Operand
import Calculator.Proofs.Value.Finite

/-!
# Printed values read back

The text of a value is a minus sign perhaps, a run of digits, and behind it perhaps a point
and more digits. An **integer reads back as itself**. A real that is a whole number reads back
as that number, though as an integer where it is small enough for one. Any other real has a
point in its text, and there the evaluation ends.

The limit of the integers needs care. 2^63 itself is printed as 9223372036854776000, which is
not the number that it stands for. What is read back is real again only because this is more
than 2^63, and because everything below 2^63 is printed as less.
-/

namespace Calculator

open Binary64 Decimal

/-! ## Printed operands -/

/-- A number in decimal, behind a minus sign if it is negative. -/
def Factor.printed (negative : Bool) (n : Nat) : Factor where
  signs := if negative then [.minus] else []
  digits := Nat.toDigits 10 n
  digits_ne_nil := Nat.toDigits_ne_nil
  isDigit _ hc := Nat.isDigit_of_mem_toDigits (by decide) (by decide) hc

/-- The number that it stands for. -/
def signedNat (negative : Bool) (n : Nat) : Int := if negative then -n else n

namespace Factor

variable {negative : Bool} {n : Nat}

theorem flatten_words_printed (negative : Bool) (n : Nat) :
    (printed negative n).words.flatten
      = (if negative then ['-'] else []) ++ Nat.toDigits 10 n := by
  cases negative <;> simp [printed, words, Sign.text]

theorem decimalValue_printed (negative : Bool) (n : Nat) :
    decimalValue (printed negative n).digits = n := Nat.ofDigitChars_ten_toDigits

theorem exact_printed (negative : Bool) (n : Nat) :
    (printed negative n).exact = (signedNat negative n : ℤ) := by
  rw [exact, decimalValue_printed]
  cases negative <;> simp [printed, signedNat, Sign.exact]

/-- **In range it is an integer.** -/
theorem value_printed_of_inRange (h : InRange (signedNat negative n)) :
    (∃ lit, literal (printed negative n).digits = .ok (.number lit))
      ∧ (printed negative n).value = .ok (.integer (Int64.ofInt (signedNat negative n))) := by
  have hfits : Fits (printed negative n).exact := by
    rw [exact_printed, fits_intCast_iff]
    exact h
  obtain ⟨k, hk⟩ := Factor.exactIntegers.complete (printed negative n).slash_not_mem_words hfits
  have hexact := (Factor.exactIntegers.sound hk).2.2
  rw [exact_printed] at hexact
  have hz : signedNat negative n = k.toInt := by exact_mod_cast hexact
  exact ⟨Factor.exists_literal hfits, by rw [hk, hz, Int64.ofInt_toInt]⟩

/-- **Out of range it is the nearest double.** -/
theorem value_printed_of_not_inRange {m : Magnitude} (h : ¬ InRange (signedNat negative n))
    (hround : Magnitude.round (n <<< fractionPlaces) 1 = some m) :
    literal (printed negative n).digits = .ok (.number (.real (.finite false m)))
      ∧ (printed negative n).value = .ok (.real (.finite negative m)) := by
  have hn : ¬ InRange n := by
    cases negative with
    | false => exact h
    | true =>
        unfold InRange signedNat at *
        simp only [if_true] at h
        omega
  have hdigits := (printed negative n).isDigit
  have hall : (printed negative n).digits ≠ [] ∧ (printed negative n).digits.all Char.isDigit :=
    ⟨(printed negative n).digits_ne_nil, List.all_eq_true.mpr hdigits⟩
  have hlit : literal (printed negative n).digits
      = .ok (.number (.real (.finite false m))) := by
    rw [literal, integer?_eq hdigits, real?, if_pos hall, decimalValue_printed, hround, if_neg hn]
    rfl
  refine ⟨hlit, ?_⟩
  have hliteral := Factor.literalValue_of_literal hlit
  rw [value, decimalValue_printed]
  cases negative with
  | false =>
      change (printed false n).literalValue.map (Sign.apply .plus) = _
      rw [hliteral]
      rfl
  | true =>
      have hneg : ¬ InRange (-(n : Int)) := h
      rw [Value.ofInt?_of_not_inRange hneg]
      change (printed true n).literalValue.map (Sign.apply .minus) = _
      rw [hliteral]
      rfl

end Factor

/-! ## Integers -/

theorem toList_text_integer (n : Int64) :
    (Value.integer n).text.toList
      = (Factor.printed (decide (n.toInt < 0)) n.toInt.natAbs).words.flatten := by
  rw [Factor.flatten_words_printed, Value.text, String.toList_append, Nat.toList_repr]
  by_cases h : n.toInt < 0 <;> simp [h]

/-- **Integers read back as themselves.** -/
theorem evaluate_text_integer (n : Int64) :
    evaluate (Value.integer n).text = .ok (.integer n) := by
  have hz : signedNat (decide (n.toInt < 0)) n.toInt.natAbs = n.toInt := by
    unfold signedNat
    split <;> rename_i h <;> simp only [decide_eq_true_eq] at h <;> omega
  obtain ⟨⟨lit, hlit⟩, hv⟩ := Factor.value_printed_of_inRange (hz ▸ inRange_toInt n)
  rw [hz, Int64.ofInt_toInt] at hv
  exact evaluate_factor (toList_text_integer n) hlit hv

/-! ## Reals -/

theorem toList_text_real (negative : Bool) (m : Magnitude) :
    (Value.real (.finite negative m)).text.toList
      = (if negative then ['-'] else []) ++ ticksText (shortest m) := String.toList_ofList

theorem toList_text_whole {negative : Bool} {m : Magnitude} {n : Nat}
    (h : ticksText (shortest m) = Nat.toDigits 10 n) :
    (Value.real (.finite negative m)).text.toList = (Factor.printed negative n).words.flatten := by
  rw [toList_text_real, h, Factor.flatten_words_printed]

/-- The limit of the integers is printed as more than it is. -/
theorem shortest_integerLimit :
    shortest Magnitude.integerLimit = 9223372036854776000 * ticksPerOne := by
  decide +kernel

/-- **Whole numbers from 2^63 on are printed as more than 2^63.** -/
theorem lt_of_integerLimit_le {m : Magnitude} {n : Nat} (hn : shortest m = n * ticksPerOne)
    (hround : Magnitude.round (n <<< fractionPlaces) 1 = some m)
    (hm : Magnitude.integerLimit.units ≤ m.units) : 0x8000000000000000 < n := by
  refine Nat.lt_of_not_le fun hle => ?_
  -- otherwise it would be 2^63 itself, which is printed as something larger
  have hnum : n <<< fractionPlaces ≤ Magnitude.integerLimit.units * 1 := by
    rw [Nat.mul_one, Magnitude.units_integerLimit]
    exact shiftLeft_mono hle _
  obtain ⟨r, hr, hunits⟩ := Magnitude.exists_round_le Nat.one_pos hnum
  obtain rfl : r = m := Option.some.inj (hr.symm.trans hround)
  have heq : r = Magnitude.integerLimit :=
    Magnitude.ext (Nat.le_antisymm (Magnitude.units_le_units_iff.mp hunits)
      (Magnitude.units_le_units_iff.mp hm))
  rw [heq, shortest_integerLimit] at hn
  have hvalue := Nat.eq_of_mul_eq_mul_right ticksPerOne_pos hn
  omega

/-- And those below it as less. -/
theorem lt_integerLimit {m : Magnitude} {n : Nat}
    (hround : Magnitude.round (n <<< fractionPlaces) 1 = some m)
    (hm : m.units < Magnitude.integerLimit.units) : n < 0x8000000000000000 := by
  refine Nat.lt_of_not_le fun hle => ?_
  have hunits := Magnitude.units_le_of_round_whole Magnitude.units_integerLimit hle hround
  exact Nat.not_le_of_lt hm hunits

/-- An integer that rounds to a magnitude equals it as a double, up to the sign of zero. -/
theorem ofInt_signedNat_equals {negative : Bool} {m : Magnitude} {n : Nat}
    (hround : Magnitude.round (n <<< fractionPlaces) 1 = some m) :
    (ofInt (signedNat negative n)).equals (.finite negative m) := by
  have habs : (signedNat negative n).natAbs = n := by cases negative <;> simp [signedNat]
  rw [ofInt, habs, round_of_some hround]
  by_cases hn : n = 0
  · -- zero has lost its sign
    subst hn
    have hzero : m.rank = 0 := by
      obtain ⟨r, hr, hunits⟩ := Magnitude.exists_round_le (m := Magnitude.zero) Nat.one_pos
        (show 0 <<< fractionPlaces ≤ Magnitude.zero.units * 1 by simp)
      obtain rfl : r = m := Option.some.inj (hr.symm.trans hround)
      exact Nat.le_zero.mp (Magnitude.units_le_units_iff.mp hunits)
    simp [equals, hzero]
  · have hsign : decide (signedNat negative n < 0) = negative := by
      cases negative <;> simp [signedNat]
      omega
    simp [equals, hsign]

/-- **Small whole numbers read back as integers.** -/
theorem evaluate_text_small (negative : Bool) {m : Magnitude} (h : m.IsWhole)
    (hm : m.units < Magnitude.integerLimit.units) :
    ∃ n : Int64, evaluate (Value.real (.finite negative m)).text = .ok (.integer n)
      ∧ (Value.integer n).asReal.equals (.finite negative m) := by
  obtain ⟨n, _, htext, hround⟩ := ticksText_of_isWhole h
  have hn := lt_integerLimit hround hm
  have hr : InRange (signedNat negative n) := by
    unfold InRange signedNat
    split <;> omega
  obtain ⟨⟨lit, hlit⟩, hv⟩ := Factor.value_printed_of_inRange hr
  refine ⟨_, evaluate_factor (toList_text_whole htext) hlit hv, ?_⟩
  rw [Value.asReal, toInt_ofInt hr]
  exact ofInt_signedNat_equals hround

/-- **Large whole numbers read back as themselves.** -/
theorem evaluate_text_large {negative : Bool} {m : Magnitude} (h : m.IsWhole)
    (hm : Magnitude.integerLimit.units ≤ m.units) :
    evaluate (Value.real (.finite negative m)).text = .ok (.real (.finite negative m)) := by
  obtain ⟨n, hn, htext, hround⟩ := ticksText_of_isWhole h
  have hlt := lt_of_integerLimit_le hn hround hm
  have hr : ¬ InRange (signedNat negative n) := by
    unfold InRange signedNat
    split <;> omega
  obtain ⟨hlit, hv⟩ := Factor.value_printed_of_not_inRange hr hround
  exact evaluate_factor (toList_text_whole htext) hlit hv

/-- **What is no whole number is read up to the point**, the only one in its text. -/
theorem evaluate_text_fraction {negative : Bool} {m : Magnitude} (h : ¬ m.IsWhole) :
    ∃ front back : String, (Value.real (.finite negative m)).text = front ++ "." ++ back
      ∧ '.' ∉ front.toList ∧ '.' ∉ back.toList
      ∧ evaluate (Value.real (.finite negative m)).text
        = .error ⟨.invalidCharacter '.', front.utf8ByteSize⟩ := by
  obtain ⟨n, fraction, hn, htext, hfraction⟩ := ticksText_of_not_isWhole h
  have hpoint : ∀ chars : List Char, (∀ c ∈ chars, c.isDigit) → '.' ∉ chars := by
    intro chars hchars hmem
    exact absurd (hchars '.' hmem) (by decide)
  have hsource : (Value.real (.finite negative m)).text.toList
      = (Factor.printed negative n).words.flatten ++ '.' :: fraction := by
    rw [toList_text_real, htext, Factor.flatten_words_printed, List.append_assoc]
  have hr : InRange (signedNat negative n) := by
    unfold InRange signedNat
    split <;> omega
  obtain ⟨⟨lit, hlit⟩, _⟩ := Factor.value_printed_of_inRange hr
  refine ⟨String.ofList (Factor.printed negative n).words.flatten, String.ofList fraction,
    ?_, ?_, ?_, ?_⟩
  · apply String.toList_injective
    simp only [hsource, String.toList_append, String.toList_ofList, List.append_assoc]
    rfl
  · have hdigits := hpoint _ (Factor.printed negative n).isDigit
    rw [String.toList_ofList, Factor.flatten_words_printed, List.mem_append]
    rintro (hsign | hdigit)
    · cases negative <;> simp at hsign
    · exact hdigits hdigit
  · rw [String.toList_ofList]
    exact hpoint fraction hfraction
  · rw [← byteSize_toList, String.toList_ofList]
    exact evaluate_factor_invalid hsource hlit rfl rfl rfl

/--
**Printed values read back**: an integer as itself, a whole number as an integer below 2^63 and
as itself from there on, and any other number up to the point in its text.
-/
theorem evaluate_text :
    (∀ n : Int64, evaluate (Value.integer n).text = .ok (.integer n))
    ∧ (∀ (negative : Bool) (m : Magnitude), m.IsWhole →
      ∃ w, evaluate (Value.real (.finite negative m)).text = .ok w
        ∧ w.asReal.equals (.finite negative m)
        ∧ (0x8000000000000000 <<< fractionPlaces ≤ m.units → w = .real (.finite negative m))
        ∧ (m.units < 0x8000000000000000 <<< fractionPlaces → w.isInteger))
    ∧ ∀ (negative : Bool) (m : Magnitude), ¬ m.IsWhole →
      ∃ front back : String, (Value.real (.finite negative m)).text = front ++ "." ++ back
        ∧ '.' ∉ front.toList ∧ '.' ∉ back.toList
        ∧ evaluate (Value.real (.finite negative m)).text
          = .error ⟨.invalidCharacter '.', front.utf8ByteSize⟩ := by
  refine ⟨evaluate_text_integer, fun negative m h => ?_,
    fun negative m h => evaluate_text_fraction h⟩
  rw [← Magnitude.units_integerLimit]
  rcases Nat.lt_or_ge m.units Magnitude.integerLimit.units with hlt | hge
  · obtain ⟨n, hrun, hequals⟩ := evaluate_text_small negative h hlt
    exact ⟨_, hrun, hequals, fun hle => absurd hle (Nat.not_le_of_lt hlt), fun _ => rfl⟩
  · refine ⟨_, evaluate_text_large h hge, ?_, fun _ => rfl,
      fun hlt => absurd hge (Nat.not_le_of_lt hlt)⟩
    simp [Value.asReal, equals]

/-- One half, which is no whole number. -/
def Binary64.Magnitude.half : Magnitude := ⟨0x3FE0000000000000, by decide⟩

/-- The smallest integer, the limit of the integers, negative zero and one half. -/
theorem evaluate_text_of_each_kind :
    evaluate "-9223372036854775808" = .ok (.integer (-9223372036854775808))
    ∧ (Magnitude.integerLimit.IsWhole
      ∧ 0x8000000000000000 <<< fractionPlaces ≤ Magnitude.integerLimit.units
      ∧ evaluate "-9223372036854776000" = .ok (.real (.finite true Magnitude.integerLimit)))
    ∧ (Magnitude.zero.IsWhole ∧ Magnitude.zero.units < 0x8000000000000000 <<< fractionPlaces
      ∧ ∃ w, evaluate "-0" = .ok w ∧ w.isInteger ∧ w.asReal.equals (.finite true .zero))
    ∧ ¬ Magnitude.half.IsWhole
      ∧ ∃ front back : String, "0.5" = front ++ "." ++ back
        ∧ evaluate "0.5" = .error ⟨.invalidCharacter '.', front.utf8ByteSize⟩ := by
  obtain ⟨hinteger, hwhole, hfraction⟩ := evaluate_text
  have hlimit : Magnitude.integerLimit.IsWhole
      ∧ 0x8000000000000000 <<< fractionPlaces ≤ Magnitude.integerLimit.units := by decide +kernel
  have hzero : Magnitude.zero.IsWhole
      ∧ Magnitude.zero.units < 0x8000000000000000 <<< fractionPlaces := by decide +kernel
  have hhalf : ¬ Magnitude.half.IsWhole := by decide +kernel
  have htexts : (Value.integer (-9223372036854775808)).text = "-9223372036854775808"
      ∧ (Value.real (.finite true Magnitude.integerLimit)).text = "-9223372036854776000"
      ∧ (Value.real (.finite true Magnitude.zero)).text = "-0"
      ∧ (Value.real (.finite false Magnitude.half)).text = "0.5" := by decide +kernel
  refine ⟨?_, ⟨hlimit.1, hlimit.2, ?_⟩, ⟨hzero.1, hzero.2, ?_⟩, hhalf, ?_⟩
  · rw [← htexts.1]
    exact hinteger _
  · obtain ⟨w, hrun, _, hlarge, _⟩ := hwhole true _ hlimit.1
    rw [← htexts.2.1, hrun, hlarge hlimit.2]
  · obtain ⟨w, hrun, hequals, _, hsmall⟩ := hwhole true _ hzero.1
    rw [← htexts.2.2.1]
    exact ⟨w, hrun, hsmall hzero.2, hequals⟩
  · obtain ⟨front, back, htext, _, _, hrun⟩ := hfraction false _ hhalf
    rw [← htexts.2.2.2]
    exact ⟨front, back, htext, hrun⟩

end Calculator
