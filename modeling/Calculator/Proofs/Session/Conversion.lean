import Calculator.Proofs.Decimal.Checked
import Calculator.Proofs.Expression.Reading
import Calculator.Proofs.Session.Faithful
import Calculator.Proofs.Source.Number

/-!
# Two ways from digits to a double

The digits of a literal can become a double as they stand, however many they are. If they spell a
64-bit integer, they can also become that integer first, which is then converted. The one
conversion works on a text in decimal and the other on a machine word, and how either of them
goes about it is left open here. **They agree all the same, bit for bit**: each is asked for the
double nearest to the same number, of two that are equally near for the even one, and there is
only one such magnitude.

So the agreement is shown of any two conversions that round to nearest, and then those of the
language are found to be such. Behind a minus sign the integer becomes the negation of the
double, and zero is the only number for which that is true only up to the sign of zero.

This is why the rule for factors may put the exact integer in the place of a negated real: as a
double it is the number that was there before.
-/

namespace Calculator

open Binary64

/-- No integer of 64 bits is too large for a double. -/
theorem Value.natAbs_toInt_lt (n : Int64) : n.toInt.natAbs < Magnitude.overflowLimit :=
  Nat.lt_of_le_of_lt (Value.natAbs_toInt_le n) (by decide +kernel)

namespace Decimal

/-! ## Conversions that round to nearest -/

/-- A run of digits becomes the nearest double, unless its number is too large for one. -/
def ReadsNearest (convert : List Char → Option Binary64) : Prop :=
  ∀ digits, Numeral digits → decimalValue digits < Magnitude.overflowLimit →
    ∃ m : Magnitude, convert digits = some (.finite false m) ∧ m.IsNearest (decimalValue digits)

/-- An integer becomes the nearest double, which is negative only if the integer is. -/
def CastsNearest (cast : Int64 → Binary64) : Prop :=
  ∀ n, ∃ m : Magnitude, cast n = .finite (decide (n.toInt < 0)) m ∧ m.IsNearest n.toInt.natAbs

/-- The two ways from the digits to a double come out at the same place. -/
structure ConversionsAgree (convert : List Char → Option Binary64) (cast : Int64 → Binary64)
    (digits : List Char) : Prop where
  /-- By way of the integer the digits become the double that they are read as, bit for bit, -/
  integer : ∀ {n}, integer? digits = some n → convert digits = some (cast n)
  /-- and by way of the negated integer its negation, up to the sign of zero. -/
  negated : ∀ {n}, negatedInteger? digits = some n →
    ∃ x, convert digits = some x ∧ (cast n).equals x.negate
      ∧ (cast n = x.negate ↔ decimalValue digits ≠ 0)

section

variable {convert : List Char → Option Binary64} {cast : Int64 → Binary64} {digits : List Char}

/-- **Whatever its sign, the integer has the magnitude of its digits**, for it is the nearest to
one and the same number. -/
theorem exists_magnitude (hconvert : ReadsNearest convert) (hcast : CastsNearest cast)
    (hd : Numeral digits) (sign : Sign) {n : Int64} (h : signedInteger? sign digits = some n) :
    ∃ m : Magnitude, convert digits = some (.finite false m)
      ∧ cast n = .finite (decide (n.toInt < 0)) m ∧ m.IsNearest (decimalValue digits) := by
  have habs : n.toInt.natAbs = decimalValue digits := by
    rw [toInt_of_signedInteger? sign h, natAbs_signFactor_mul]
  have hlt := Value.natAbs_toInt_lt n
  obtain ⟨m', hm', hnear'⟩ := hcast n
  rw [habs] at hlt hnear'
  obtain ⟨m, hm, hnear⟩ := hconvert digits hd hlt
  obtain rfl := hnear.unique hnear'
  exact ⟨m, hm, hm', hnear⟩

/-- **Any two conversions that round to nearest agree.** -/
theorem conversionsAgree_of_nearest (hconvert : ReadsNearest convert) (hcast : CastsNearest cast)
    (hd : Numeral digits) : ConversionsAgree convert cast digits where
  integer := by
    intro n h
    obtain ⟨m, hm, hn, _⟩ := exists_magnitude hconvert hcast hd .plus h
    rw [hm, hn, decide_eq_false (Int.not_lt.mpr (toInt_nonneg_of_integer? h))]
  negated := by
    intro n h
    obtain ⟨m, hm, hn, hnear⟩ := exists_magnitude hconvert hcast hd .minus h
    have hsign : n.toInt < 0 ↔ decimalValue digits ≠ 0 := by
      rw [toInt_of_signedInteger? .minus h, signFactor]
      omega
    refine ⟨_, hm, ?_⟩
    rw [hn, negate]
    by_cases hzero : decimalValue digits = 0
    · -- the integer has no sign that zero could keep
      rw [hzero] at hnear
      obtain rfl := hnear.unique Magnitude.isNearest_zero
      simp [equals, hsign, hzero, Magnitude.zero]
    · simp [equals, hsign, hzero]

end

/-! ## The conversions of the language -/

theorem readsNearest_real? : ReadsNearest real? := by
  intro digits hd hlt
  have hsome : real? digits ≠ none := fun hnone =>
    Nat.not_le_of_lt hlt ((real?_eq_none_iff_of_numeral hd).mp hnone)
  obtain ⟨x, hx⟩ := Option.ne_none_iff_exists'.mp hsome
  obtain ⟨m, rfl, hm⟩ := exists_isNearest_of_real? hx
  exact ⟨m, hx, hm⟩

theorem castsNearest_ofInt : CastsNearest fun n => ofInt n.toInt := by
  intro n
  have hsome : Magnitude.round (n.toInt.natAbs <<< fractionPlaces) 1 ≠ none := fun hnone =>
    Nat.not_le_of_lt (Value.natAbs_toInt_lt n) (Magnitude.round_whole_eq_none_iff.mp hnone)
  obtain ⟨m, hm⟩ := Option.ne_none_iff_exists'.mp hsome
  exact ⟨m, round_of_some hm, Magnitude.isNearest_of_round_whole hm⟩

end Decimal

/-! ## The exact integer in the place of a real -/

/-- The value is what the sign makes of a literal, given the number that its digits are read as. -/
structure StandsFor (sign : Sign) (digits : List Char) (lit v : Value) : Prop where
  /-- A real behind a minus sign gives way to the integer that the digits spell with the sign, -/
  replaced : ∀ {x n}, sign = .minus → lit = .real x → Decimal.negatedInteger? digits = some n →
    v = .integer n
  /-- nothing else does, -/
  kept : sign = .plus ∨ lit.isInteger ∨ Decimal.negatedInteger? digits = none →
    v = sign.apply lit
  /-- and as a double it is the same either way, bit for bit. -/
  asReal_eq : v.asReal = (sign.apply lit).asReal

/-- **The integer that a real gives way to** is the same double as its negation. -/
theorem asReal_of_negatedInteger? {digits : List Char} {x : Binary64} {n : Int64}
    (hd : Numeral digits) (h : literal digits = .ok (.number (.real x)))
    (hn : Decimal.negatedInteger? digits = some n) :
    (Value.integer n).asReal = (Sign.minus.apply (.real x)).asReal := by
  obtain ⟨hnone, hx⟩ := real?_of_literal h
  have hlarge := Decimal.le_of_integer?_eq_none hd.isDigit hnone
  obtain ⟨y, hy, _, hbits⟩ := (Decimal.conversionsAgree_of_nearest Decimal.readsNearest_real?
    Decimal.castsNearest_ofInt hd).negated hn
  obtain rfl : x = y := Option.some.inj (hx.symm.trans hy)
  exact hbits.mpr (by omega)

theorem standsFor_of_literal {digits : List Char} {lit : Value} (hd : Numeral digits)
    (h : literal digits = .ok (.number lit)) (sign : Sign) :
    StandsFor sign digits lit (sign.applyToLiteral digits lit) where
  replaced := by
    rintro x n rfl rfl hn
    rw [Sign.applyToLiteral, if_pos ⟨rfl, rfl⟩, hn]
  kept := by
    intro hkept
    unfold Sign.applyToLiteral
    split
    · rename_i hsign
      rcases hkept with rfl | hinteger | hnone
      · cases hsign.1
      · cases lit with
        | integer n => cases hsign.2
        | real x => cases hinteger
      · rw [hnone]
    · rfl
  asReal_eq := by
    unfold Sign.applyToLiteral
    split
    · rename_i hsign
      cases lit with
      | integer n => cases hsign.2
      | real x =>
          rw [hsign.1]
          cases hn : Decimal.negatedInteger? digits with
          | none => rfl
          | some n => exact asReal_of_negatedInteger? hd h hn
    · rfl

/-- **The integer and the real that the same digits become agree**, whatever conversions make
them, as long as these round to nearest; those of the language do, and agree. Hence what a factor is
worth as a double is what its signs make of the number that stands there, whether or not an exact
integer has taken its place: on any reader that is reached, and wherever it reads on to. -/
theorem conversions_agree :
    (∀ (convert : List Char → Option Binary64) (cast : Int64 → Binary64),
      Decimal.ReadsNearest convert → Decimal.CastsNearest cast →
        ∀ digits, Numeral digits → Decimal.ConversionsAgree convert cast digits)
      ∧ Decimal.ReadsNearest Decimal.real?
      ∧ Decimal.CastsNearest (fun n => ofInt n.toInt)
      ∧ (∀ digits, Numeral digits →
        Decimal.ConversionsAgree Decimal.real? (fun n => ofInt n.toInt) digits)
      ∧ ∀ (source : String) (calls : List Call) (answers : List Answer) (r₀ r r' : Reader)
        (given : List (Except Error Token)) (v : Value),
        (Session.start source).run calls = some (answers, .looking r₀) → r₀.Steps given r →
          Rule.factor.run r = (.ok v, r') →
          ∃ (read : List Span) (f : Factor) (lit : Value), r.Passes r' read
            ∧ read.map Span.text = f.words ∧ literal f.digits = .ok (.number lit)
            ∧ StandsFor (Sign.ofRun f.signs) f.digits lit v := by
  refine ⟨fun _ _ hconvert hcast _ hd => Decimal.conversionsAgree_of_nearest hconvert hcast hd,
    Decimal.readsNearest_real?, Decimal.castsNearest_ofInt, fun _ hd =>
      Decimal.conversionsAgree_of_nearest Decimal.readsNearest_real? Decimal.castsNearest_ofInt hd,
    ?_⟩
  intro source calls answers r₀ r r' given v hrun hsteps hv
  obtain ⟨read, f, lit, hread, hwords, hlit, rfl⟩ :=
    Rule.signed_ok ((Session.faithful_of_run hrun).steps hsteps) hv
  rw [Sign.plus_combine]
  exact ⟨read, f, lit, hread, hwords, hlit, standsFor_of_literal f.numeral hlit _⟩

/-- The number 2^54 - 1 lies in the middle between two doubles, and the even one is the first of
the next binade. The last number is a real by itself and the smallest integer with its sign. -/
theorem conversions_agree_carry :
    Decimal.real? "00018014398509481983".toList = some (ofInt (18014398509481983 : Int64).toInt)
      ∧ ofInt (18014398509481983 : Int64).toInt = .finite false ⟨0x4350000000000000, by decide⟩
      ∧ (∃ x, Decimal.real? "000".toList = some x ∧ (ofInt (0 : Int64).toInt).equals x.negate
        ∧ ofInt (0 : Int64).toInt ≠ x.negate)
      ∧ ∃ answers r r', (Session.start "*+-+09223372036854775808/2").run
          [.look, .factor, .consume .star] = some (answers, .looking r)
        ∧ Rule.factor.run r = (.ok (.integer Int64.minValue), r')
        ∧ ∃ (f : Factor) (lit : Value), literal f.digits = .ok (.number lit)
          ∧ (Value.integer Int64.minValue).asReal = ((Sign.ofRun f.signs).apply lit).asReal := by
  have hcarry : Decimal.integer? "00018014398509481983".toList = some 18014398509481983 := by
    decide +kernel
  have hzero : Decimal.negatedInteger? "000".toList = some 0 := by decide +kernel
  have hshown : ((Session.start "*+-+09223372036854775808/2").run
      [.look, .factor, .consume .star]).bind (fun result =>
        result.2.reader?.map fun r => (Rule.factor.run r).1)
      = some (.ok (.integer Int64.minValue)) := by
    decide +kernel
  obtain ⟨⟨answers, s⟩, hrun, hshown⟩ := Option.bind_eq_some_iff.mp hshown
  obtain ⟨r, hr, hv⟩ := Option.map_eq_some_iff.mp hshown
  obtain rfl := Session.reader?_eq_some_iff.mp hr
  have hfactor : Rule.factor.run r = (.ok (.integer Int64.minValue), (Rule.factor.run r).2) :=
    Prod.ext hv rfl
  obtain ⟨_, f, lit, _, _, hlit, hstands⟩ :=
    conversions_agree.2.2.2.2 _ _ _ _ _ _ _ _ hrun (.refl r) hfactor
  refine ⟨?_, by decide +kernel, ?_, answers, r, _, hrun, hfactor, f, lit, hlit,
    hstands.asReal_eq⟩
  · exact (conversions_agree.1 _ _ Decimal.readsNearest_real? Decimal.castsNearest_ofInt _
      ⟨by decide, List.all_eq_true.mp rfl⟩).integer hcarry
  · obtain ⟨x, hx, hequals, hbits⟩ :=
      (conversions_agree.2.2.2.1 "000".toList ⟨by decide, List.all_eq_true.mp rfl⟩).negated hzero
    exact ⟨x, hx, hequals, fun h => hbits.mp h (by decide)⟩

end Calculator
