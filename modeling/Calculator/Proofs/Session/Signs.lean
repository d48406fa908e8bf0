import Mathlib.Algebra.Ring.Parity
import Calculator.Proofs.Evaluate.Operand
import Calculator.Proofs.Session.Faithful
import Calculator.Proofs.Source.Number

/-!
# Signs in a row, and one inside the other

The grammar has a sign in front of a factor, so that a run of signs is read from the innermost
outwards, each applied to what the one behind it gives. The rule goes through them in a row
instead, keeps what they amount to, and applies that once. **The two come to the same, bit for
bit, with one exception.** The number 2^63 is no integer, but with a minus sign it is one: the
rule, which looks at the digits again, gives the smallest integer, and the recursion, which has
only the real to go by, gives the real with the same value.

Going over it sign by sign, two minus signs must cancel. That they do on everything that is
read is the whole reason; it is only the smallest integer that a second minus sign does not
bring back.
-/

namespace Calculator

open Binary64

/-! ## The signs of a value -/

namespace Sign

/-- **Where two minus signs cancel, the signs of a run may be taken one by one.** -/
theorem foldr_apply {v : Value} (h : minus.apply (minus.apply v) = v) (signs : List Sign) :
    signs.foldr apply v = (ofRun signs).apply v := by
  induction signs with
  | nil => rfl
  | cons s signs ih =>
      rw [List.foldr_cons, ih, ofRun_cons]
      cases s with
      | plus =>
          rw [plus_combine]
          rfl
      | minus =>
          cases ofRun signs with
          | plus => rfl
          | minus => exact h

theorem ofRun_eq_minus_iff {signs : List Sign} :
    ofRun signs = minus ↔ signs.count minus % 2 = 1 := by
  unfold ofRun
  split <;> simp [*]

/-- A number that is not negative has its negation among the integers. -/
theorem minus_apply_integer {n : Int64} (h : 0 ≤ n.toInt) :
    minus.apply (.integer n) = .integer (Int64.ofInt (-n.toInt)) ∧ InRange (-n.toInt) := by
  have hr : InRange (-n.toInt) := by
    have hn := inRange_toInt n
    unfold InRange at hn ⊢
    omega
  exact ⟨by simp only [apply, Value.ofInt?_of_inRange hr], hr⟩

theorem minus_minus_integer {n : Int64} (h : 0 ≤ n.toInt) :
    minus.apply (minus.apply (.integer n)) = .integer n := by
  obtain ⟨hneg, hr⟩ := minus_apply_integer h
  have hback : Value.ofInt? (- -n.toInt) = some (.integer n) := by
    rw [Int.neg_neg, Value.ofInt?_of_inRange (inRange_toInt n), Int64.ofInt_toInt]
  rw [hneg]
  simp only [apply, toInt_ofInt hr, hback]

theorem minus_minus_real (x : Binary64) : minus.apply (minus.apply (.real x)) = .real x := by
  simp only [apply, negate_negate]

end Sign

/-! ## The signs of a literal -/

/-- What a literal reads as: the integer, or from 2^63 on the nearest real. -/
theorem literal_cases {digits : List Char} {lit : Value} (hd : Numeral digits)
    (h : literal digits = .ok (.number lit)) :
    (∃ n : Int64, lit = .integer n ∧ Decimal.decimalValue digits ≤ 0x7FFFFFFFFFFFFFFF
        ∧ n.toInt = Decimal.decimalValue digits)
      ∨ ∃ m : Magnitude, lit = .real (.finite false m)
        ∧ 0x8000000000000000 ≤ Decimal.decimalValue digits
        ∧ m.IsNearest (Decimal.decimalValue digits) := by
  have hnumber := @Span.numberAt_outcome 0 digits hd
  rw [Span.outcome_eq_ok_iff.mpr (hd.reading.trans h)] at hnumber
  cases hnumber with
  | integer hle hn => exact .inl ⟨_, rfl, hle, hn⟩
  | real hle _ hm => exact .inr ⟨_, rfl, hle, hm⟩

/-- On what is read two minus signs cancel. -/
theorem minus_minus_of_literal {digits : List Char} {lit : Value} (hd : Numeral digits)
    (h : literal digits = .ok (.number lit)) :
    Sign.minus.apply (Sign.minus.apply lit) = lit := by
  rcases literal_cases hd h with ⟨n, rfl, _, hn⟩ | ⟨m, rfl, _, _⟩
  · exact Sign.minus_minus_integer (by omega)
  · exact Sign.minus_minus_real _

/-- **Only behind a minus sign, and only for 2^63**, the digits are looked at again in earnest. -/
theorem Sign.applyToLiteral_eq {digits : List Char} {lit : Value} (hd : Numeral digits)
    (h : literal digits = .ok (.number lit)) {sign : Sign}
    (hne : ¬ (Decimal.decimalValue digits = 0x8000000000000000 ∧ sign = minus)) :
    sign.applyToLiteral digits lit = sign.apply lit := by
  unfold applyToLiteral
  split
  · rename_i hsign
    rcases literal_cases hd h with ⟨n, rfl, _⟩ | ⟨m, rfl, hle, _⟩
    · cases hsign.2
    · have hr : ¬ InRange (-(Decimal.decimalValue digits : Int)) := by
        have hno : Decimal.decimalValue digits ≠ 0x8000000000000000 := fun heq =>
          hne ⟨heq, hsign.1⟩
        unfold InRange
        omega
      rw [Decimal.negatedInteger?_eq hd.isDigit, if_neg hr]
  · rfl

theorem Sign.applyToLiteral_minus {digits : List Char} {lit : Value} (hd : Numeral digits)
    (h : literal digits = .ok (.number lit))
    (heq : Decimal.decimalValue digits = 0x8000000000000000) :
    minus.applyToLiteral digits lit = .integer Int64.minValue := by
  rcases literal_cases hd h with ⟨n, _, hle, _⟩ | ⟨m, rfl, _, _⟩
  · omega
  · have hr : InRange (-(Decimal.decimalValue digits : Int)) := by
      unfold InRange
      omega
    rw [applyToLiteral, if_pos ⟨rfl, rfl⟩, Decimal.negatedInteger?_eq hd.isDigit, if_pos hr, heq]
    rfl

/-- What the number `n` behind so many minus signs is worth. -/
inductive SignedNumber (minuses n : Nat) : Value → Prop where
  /-- Up to 2^63 - 1 an integer, -/
  | integer {k : Int64} : n ≤ 0x7FFFFFFFFFFFFFFF → k.toInt = (-1) ^ minuses * n →
      SignedNumber minuses n (.integer k)
  /-- and with an odd number of minus signs 2^63 too, -/
  | smallest : n = 0x8000000000000000 → minuses % 2 = 1 →
      SignedNumber minuses n (.integer Int64.minValue)
  /-- but else from there on the nearest double with the sign. -/
  | real {m : Magnitude} : 0x8000000000000000 ≤ n →
      ¬ (n = 0x8000000000000000 ∧ minuses % 2 = 1) → m.IsNearest n →
      SignedNumber minuses n (.real (.finite (decide (minuses % 2 = 1)) m))

theorem signedNumber_of_literal {digits : List Char} {lit : Value} (hd : Numeral digits)
    (h : literal digits = .ok (.number lit)) (signs : List Sign) :
    SignedNumber (signs.count .minus) (Decimal.decimalValue digits)
      ((Sign.ofRun signs).applyToLiteral digits lit) := by
  by_cases hsmallest :
      Decimal.decimalValue digits = 0x8000000000000000 ∧ signs.count .minus % 2 = 1
  · rw [Sign.ofRun_eq_minus_iff.mpr hsmallest.2, Sign.applyToLiteral_minus hd h hsmallest.1]
    exact .smallest hsmallest.1 hsmallest.2
  · have hne : ¬ (Decimal.decimalValue digits = 0x8000000000000000
        ∧ Sign.ofRun signs = .minus) := by
      rw [Sign.ofRun_eq_minus_iff]
      exact hsmallest
    rw [Sign.applyToLiteral_eq hd h hne]
    rcases literal_cases hd h with ⟨n, rfl, hle, hn⟩ | ⟨m, rfl, hle, hm⟩
    · cases hs : Sign.ofRun signs with
      | plus =>
          have heven : Even (signs.count Sign.minus) := by
            rw [← Nat.not_odd_iff_even, Nat.odd_iff, ← Sign.ofRun_eq_minus_iff, hs]
            decide
          exact .integer hle (by rw [heven.neg_one_pow, one_mul, hn])
      | minus =>
          have hodd : Odd (signs.count Sign.minus) :=
            Nat.odd_iff.mpr (Sign.ofRun_eq_minus_iff.mp hs)
          obtain ⟨hneg, hr⟩ := Sign.minus_apply_integer (n := n) (by omega)
          rw [hneg]
          exact .integer hle (by rw [toInt_ofInt hr, hodd.neg_one_pow, hn, neg_one_mul])
    · have hreal : ∀ s : Sign, s.apply (.real (.finite false m))
          = .real (.finite (decide (s = .minus)) m) := by
        intro s
        cases s <;> rfl
      rw [hreal, decide_eq_decide.mpr Sign.ofRun_eq_minus_iff]
      exact .real hle hsmallest hm

theorem isNearest_integerLimit : Magnitude.integerLimit.IsNearest (0x8000000000000000 : ℕ) :=
  Magnitude.isNearest_of_units Magnitude.units_integerLimit

theorem asReal_minValue :
    (Value.integer Int64.minValue).asReal = .finite true Magnitude.integerLimit := by
  decide +kernel

/-- How the value of the rule goes with that of the recursion. -/
structure AgreesWithRecursion (f : Factor) (lit v : Value) : Prop where
  /-- They are the same, -/
  eq : ¬ (Decimal.decimalValue f.digits = 0x8000000000000000 ∧ f.signs.count .minus % 2 = 1) →
    v = f.signs.foldr Sign.apply lit
  /-- but for the smallest integer, which the recursion takes for the real -2^63. -/
  smallest : Decimal.decimalValue f.digits = 0x8000000000000000 →
    f.signs.count .minus % 2 = 1 →
      v = .integer Int64.minValue
        ∧ f.signs.foldr Sign.apply lit = .real (.finite true Magnitude.integerLimit)
        ∧ v.asReal = (f.signs.foldr Sign.apply lit).asReal

/-- **The signs in a row are worth what they are one inside the other.** -/
theorem agreesWithRecursion {f : Factor} {lit : Value}
    (h : literal f.digits = .ok (.number lit)) :
    AgreesWithRecursion f lit ((Sign.ofRun f.signs).applyToLiteral f.digits lit) := by
  have hfold := Sign.foldr_apply (minus_minus_of_literal f.numeral h) f.signs
  constructor
  · intro hne
    rw [hfold]
    refine Sign.applyToLiteral_eq f.numeral h ?_
    rw [Sign.ofRun_eq_minus_iff]
    exact hne
  · intro heq hodd
    have hreal : f.signs.foldr Sign.apply lit = .real (.finite true Magnitude.integerLimit) := by
      rw [hfold, Sign.ofRun_eq_minus_iff.mpr hodd]
      rcases literal_cases f.numeral h with ⟨n, _, hle, _⟩ | ⟨m, rfl, _, hm⟩
      · omega
      · rw [heq] at hm
        cases hm.unique isNearest_integerLimit
        rfl
    rw [hreal, Sign.ofRun_eq_minus_iff.mpr hodd, Sign.applyToLiteral_minus f.numeral h heq]
    exact ⟨rfl, rfl, asReal_minValue⟩

/-! ## The rule on signs and a literal -/

/-- **The rule goes through the signs and takes the literal**, if it gets behind it. -/
theorem Rule.signed_of_items {digits : List Char} {lit : Value}
    (hlit : literal digits = .ok (.number lit)) (hd : Numeral digits) {next : Span}
    (hnext : next.Reads) {rest : List Span} {signs : List Sign} {read : List Span} (sign : Sign)
    {r : Reader} (hr : r.Faithful) (hitems : r.items = read ++ next :: rest)
    (hwords : read.map Span.text = signs.map (fun s => s.text.toList) ++ [digits]) :
    ∃ r', signed sign r
        = (.ok ((sign.combine (Sign.ofRun signs)).applyToLiteral digits lit), r')
      ∧ r.Passes r' read := by
  obtain ⟨front, sp, r₁, rfl, htext, hpass, hitems₁, hcurrent, hrun⟩ :=
    signed_of_words hd hlit sign hr hitems hwords
  obtain ⟨r', ha, hlast, _⟩ := Reader.exists_advance hpass.faithful hitems₁ hnext
  have hspan : r₁.span.text = digits := by rw [(List.cons.inj hitems₁).1, htext]
  refine ⟨r', ?_, hpass.trans hlast⟩
  rw [hrun, signed_eq, hcurrent]
  simp only [Token.sign?, ha, hspan]

/-- **A factor is worth what its signs, one inside the other, make of its literal**, with the one
exception; and it is an integer whenever the number with its sign is one. -/
theorem factor_of_run {source : String} {calls : List Call} {answers : List Answer} {r : Reader}
    (h : (Session.start source).run calls = some (answers, .looking r)) {f : Factor} {lit : Value}
    {read : List Span} {next : Span} {rest : List Span} (hitems : r.items = read ++ next :: rest)
    (hwords : read.map Span.text = f.words) (hlit : literal f.digits = .ok (.number lit))
    (hnext : next.Reads) :
    ∃ v r', Rule.factor.run r = (.ok v, r') ∧ r.Passes r' read
      ∧ SignedNumber (f.signs.count .minus) (Decimal.decimalValue f.digits) v
      ∧ AgreesWithRecursion f lit v := by
  obtain ⟨r', hrun, hpass⟩ := Rule.signed_of_items hlit f.numeral hnext .plus
    (Session.faithful_of_run h) hitems hwords
  rw [Sign.plus_combine] at hrun
  exact ⟨_, r', hrun, hpass, signedNumber_of_literal f.numeral hlit f.signs,
    agreesWithRecursion hlit⟩

/-- Three minus signs in front of 2^63, where a factor has failed before. -/
theorem factor_of_run_smallest :
    ∃ answers r r', (Session.start "*---+009223372036854775808/2").run
        [.look, .factor, .consume .star] = some (answers, .looking r)
      ∧ Rule.factor.run r = (.ok (.integer Int64.minValue), r')
      ∧ r'.items = [⟨26, ['/']⟩, ⟨27, ['2']⟩, ⟨28, []⟩]
      ∧ [Sign.minus, .minus, .minus, .plus].foldr Sign.apply
          (.real (.finite false Magnitude.integerLimit))
        = .real (.finite true Magnitude.integerLimit) := by
  have hshown : ((Session.start "*---+009223372036854775808/2").run
      [.look, .factor, .consume .star]).bind (fun result => result.2.reader?.map Reader.items)
      = some ([⟨1, ['-']⟩, ⟨2, ['-']⟩, ⟨3, ['-']⟩, ⟨4, ['+']⟩,
          ⟨5, "009223372036854775808".toList⟩] ++ ⟨26, ['/']⟩ :: [⟨27, ['2']⟩, ⟨28, []⟩]) := by
    decide +kernel
  have hlit : literal "009223372036854775808".toList
      = .ok (.number (.real (.finite false Magnitude.integerLimit))) := by
    decide +kernel
  obtain ⟨⟨answers, s⟩, hrun, hshown⟩ := Option.bind_eq_some_iff.mp hshown
  obtain ⟨r, hr, hitems⟩ := Option.map_eq_some_iff.mp hshown
  obtain rfl := Session.reader?_eq_some_iff.mp hr
  let f : Factor := ⟨[.minus, .minus, .minus, .plus], "009223372036854775808".toList,
    by decide, List.all_eq_true.mp rfl⟩
  obtain ⟨v, r', hv, hpass, -, hagrees⟩ :=
    factor_of_run (f := f) hrun hitems rfl hlit ⟨.slash, rfl⟩
  obtain ⟨rfl, hfold, -⟩ := hagrees.smallest (by decide) (by decide)
  have hleft := hpass.items_eq
  rw [hitems] at hleft
  exact ⟨answers, r, r', hrun, hv, (List.append_cancel_left hleft).symm, hfold⟩

end Calculator
