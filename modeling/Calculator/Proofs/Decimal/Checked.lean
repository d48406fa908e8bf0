import Calculator.Proofs.Expression.Literal

/-!
# Reading an integer with checked arithmetic

The natural machine reading of a run of digits keeps the number in a 64-bit integer: for
each byte of the text it multiplies by ten and puts the digit on, or takes it off where the
number is to be negative, and each of these two operations gives up where its result is not a
64-bit integer. The readings of the language compare with a limit instead. Here both are shown
to be the same, and **exact on every text**: no check on the way refuses a run of digits whose
number fits, however long the run is and however many zeros it begins with. With the sign there
is one number more that fits, 2^63.
-/

namespace Calculator.Decimal

/-! ## The reading of the machine -/

/-- The digit that a byte stands for. -/
def digitOfByte? (byte : UInt8) : Option Nat :=
  if 48 ≤ byte.toNat ∧ byte.toNat ≤ 57 then some (byte.toNat - 48) else none

/-- The result of a checked operation: the 64-bit integer `z`, where it is one. -/
def checked? (z : Int) : Option Int64 := if InRange z then some (Int64.ofInt z) else none

/-- The factor that a sign stands for. -/
def signFactor : Sign → Int
  | .plus => 1
  | .minus => -1

/-- One more byte: a checked multiplication, and then a checked addition or subtraction. -/
def checkedStep (sign : Sign) (value : Int64) (byte : UInt8) : Option Int64 := do
  let digit ← digitOfByte? byte
  let scaled ← checked? (value.toInt * 10)
  checked? (scaled.toInt + signFactor sign * digit)

/-- All bytes of a text, beginning with zero. -/
def checkedReading (sign : Sign) (bytes : List UInt8) : Option Int64 :=
  bytes.foldlM (checkedStep sign) 0

/-- How far the numbers with a sign reach. -/
def signLimit : Sign → Nat
  | .plus => 9223372036854775807
  | .minus => 9223372036854775808

/-- The readings of the language, told apart by the sign. -/
def signedInteger? : Sign → List Char → Option Int64
  | .plus => integer?
  | .minus => negatedInteger?

theorem inRange_signFactor_mul {sign : Sign} {n : Nat} :
    InRange (signFactor sign * n) ↔ n ≤ signLimit sign := by
  cases sign <;> simp only [InRange, signFactor, signLimit] <;> omega

theorem natAbs_signFactor_mul (sign : Sign) (n : Nat) : (signFactor sign * n).natAbs = n := by
  cases sign <;> simp [signFactor]

theorem checked?_of_le {sign : Sign} {n : Nat} (h : n ≤ signLimit sign) :
    checked? (signFactor sign * n) = some (Int64.ofInt (signFactor sign * n)) :=
  if_pos (inRange_signFactor_mul.mpr h)

theorem checked?_of_lt {sign : Sign} {n : Nat} (h : signLimit sign < n) :
    checked? (signFactor sign * n) = none :=
  if_neg fun hr => absurd (inRange_signFactor_mul.mp hr) (Nat.not_le.mpr h)

theorem toInt_signed {sign : Sign} {n : Nat} (h : n ≤ signLimit sign) :
    (Int64.ofInt (signFactor sign * n)).toInt = signFactor sign * n :=
  toInt_ofInt (inRange_signFactor_mul.mpr h)

theorem signedInteger?_eq_map (sign : Sign) (digits : List Char) :
    signedInteger? sign digits
      = (boundedValue (signLimit sign) digits).map
          fun n : Nat => Int64.ofInt (signFactor sign * n) := by
  cases sign with
  | plus =>
      rw [signedInteger?, integer?, signLimit]
      cases boundedValue 9223372036854775807 digits with
      | none => rfl
      | some n => exact congrArg some (congrArg Int64.ofInt (Int.one_mul n).symm)
  | minus =>
      rw [signedInteger?, negatedInteger?, signLimit]
      cases boundedValue 9223372036854775808 digits with
      | none => rfl
      | some n => exact congrArg some (congrArg Int64.ofInt (Int.neg_one_mul n).symm)

/-- The integer that is read is the number with the sign. -/
theorem toInt_of_signedInteger? (sign : Sign) {digits : List Char} {n : Int64}
    (h : signedInteger? sign digits = some n) :
    n.toInt = signFactor sign * decimalValue digits := by
  rw [signedInteger?_eq_map, Option.map_eq_some_iff] at h
  obtain ⟨k, hk, rfl⟩ := h
  obtain ⟨_, rfl, hle⟩ := boundedValue_eq_some_iff.mp hk
  exact toInt_signed hle

/-! ## The bytes of a digit -/

/-- A digit is written with the one byte that stands for it. -/
theorem utf8EncodeChar_of_isDigit {c : Char} (h : c.isDigit) :
    ∃ byte, String.utf8EncodeChar c = [byte] ∧ digitOfByte? byte = some (c.toNat - '0'.toNat) := by
  have hrange : 48 ≤ c.toNat ∧ c.toNat ≤ 57 := Char.isDigit_iff_toNat.mp h
  refine ⟨UInt8.ofNat c.toNat, ?_, ?_⟩
  · unfold String.utf8EncodeChar
    dsimp only
    rw [if_pos]
    · rfl
    · change c.toNat ≤ 127
      omega
  · rw [digitOfByte?, UInt8.toNat_ofNat', Nat.mod_eq_of_lt (by omega), if_pos hrange]
    rfl

/-- Any other character begins with a byte that stands for no digit. -/
theorem utf8EncodeChar_of_not_isDigit {c : Char} (h : ¬ c.isDigit) :
    ∃ byte rest, String.utf8EncodeChar c = byte :: rest ∧ digitOfByte? byte = none := by
  have hbyte (n : Nat) : (UInt8.ofNat n).toNat = n % 256 := UInt8.toNat_ofNat'
  have hc : c.val.toNat = c.toNat := rfl
  have hrange : ¬ (48 ≤ c.toNat ∧ c.toNat ≤ 57) := fun hrange =>
    h (Char.isDigit_iff_toNat.mpr hrange)
  unfold String.utf8EncodeChar
  dsimp only
  split
  · refine ⟨_, _, rfl, if_neg ?_⟩
    rw [hbyte]
    omega
  · -- the first byte of a longer form is at least 192
    split
    · refine ⟨_, _, rfl, if_neg ?_⟩
      rw [hbyte]
      omega
    · split <;>
      · refine ⟨_, _, rfl, if_neg ?_⟩
        rw [hbyte]
        omega

/-- Every byte of the text stands for a digit. -/
def OnlyDigitBytes (bytes : List UInt8) : Prop :=
  ∀ byte ∈ bytes, 48 ≤ byte.toNat ∧ byte.toNat ≤ 57

theorem isSome_digitOfByte? {byte : UInt8} :
    (digitOfByte? byte).isSome ↔ 48 ≤ byte.toNat ∧ byte.toNat ≤ 57 := by
  rw [digitOfByte?]
  split <;> simp_all

theorem onlyDigitBytes_utf8EncodeChar {c : Char} :
    OnlyDigitBytes (String.utf8EncodeChar c) ↔ c.isDigit := by
  constructor
  · intro h
    refine Decidable.byContradiction fun hc => ?_
    obtain ⟨byte, rest, hbytes, hnone⟩ := utf8EncodeChar_of_not_isDigit hc
    have := isSome_digitOfByte?.mpr (h byte (hbytes ▸ List.mem_cons_self))
    simp [hnone] at this
  · intro h byte hmem
    obtain ⟨b, hbytes, hsome⟩ := utf8EncodeChar_of_isDigit h
    rw [hbytes, List.mem_singleton] at hmem
    exact isSome_digitOfByte?.mp (by rw [hmem, hsome]; rfl)

/-- **Only digits are written with the bytes of digits.** -/
theorem onlyDigitBytes_iff {text : String} :
    OnlyDigitBytes text.toUTF8.data.toList ↔ ∀ c ∈ text.toList, c.isDigit := by
  rw [toList_toUTF8]
  constructor
  · intro h c hc
    exact onlyDigitBytes_utf8EncodeChar.mp fun byte hb => h byte (List.mem_flatMap.mpr ⟨c, hc, hb⟩)
  · intro h byte hb
    obtain ⟨c, hc, hb⟩ := List.mem_flatMap.mp hb
    exact onlyDigitBytes_utf8EncodeChar.mpr (h c hc) byte hb

/-! ## One step, and all of them -/

/--
**One step keeps to the limit.** The multiplication may be the one that fails, but then the
number with its digit is too large as well.
-/
theorem checkedStep_eq {sign : Sign} {n digit : Nat} {byte : UInt8}
    (hn : n ≤ signLimit sign) (hbyte : digitOfByte? byte = some digit) :
    checkedStep sign (Int64.ofInt (signFactor sign * n)) byte
      = if 10 * n + digit ≤ signLimit sign
        then some (Int64.ofInt (signFactor sign * (10 * n + digit : Nat))) else none := by
  have hscaled : signFactor sign * n * 10 = signFactor sign * (10 * n : Nat) := by
    rw [Int.natCast_mul, Int.mul_comm _ 10, Int.mul_left_comm]
    rfl
  have hsum : signFactor sign * (10 * n : Nat) + signFactor sign * digit
      = signFactor sign * (10 * n + digit : Nat) := by
    rw [Int.natCast_add, Int.mul_add]
  simp only [checkedStep, hbyte, Option.bind_eq_bind, Option.bind_some, toInt_signed hn, hscaled]
  by_cases h : 10 * n ≤ signLimit sign
  · simp only [checked?_of_le h, Option.bind_some, toInt_signed h, hsum]
    split
    · rename_i hfits
      exact checked?_of_le hfits
    · rename_i hfits
      exact checked?_of_lt (Nat.lt_of_not_le hfits)
  · rw [checked?_of_lt (Nat.lt_of_not_le h), if_neg (by omega), Option.bind_none]

theorem checkedStep_eq_none {sign : Sign} {value : Int64} {byte : UInt8}
    (hbyte : digitOfByte? byte = none) : checkedStep sign value byte = none := by
  rw [checkedStep, hbyte]
  rfl

/-- By induction on the characters, the number read so far being within the limit. -/
theorem foldlM_checkedStep {sign : Sign} {n : Nat} (hn : n ≤ signLimit sign) (chars : List Char) :
    (chars.flatMap String.utf8EncodeChar).foldlM (checkedStep sign)
        (Int64.ofInt (signFactor sign * n))
      = (boundedFrom (signLimit sign) n chars).map
          fun n : Nat => Int64.ofInt (signFactor sign * n) := by
  induction chars generalizing n with
  | nil => rfl
  | cons c rest ih =>
      rw [List.flatMap_cons, boundedFrom]
      by_cases hc : c.isDigit
      · obtain ⟨byte, hbytes, hbyte⟩ := utf8EncodeChar_of_isDigit hc
        rw [hbytes, List.singleton_append, List.foldlM_cons, checkedStep_eq hn hbyte]
        by_cases hfits : 10 * n + (c.toNat - '0'.toNat) ≤ signLimit sign
        · rw [if_pos hfits, if_pos ⟨hc, hfits⟩]
          exact ih hfits
        · rw [if_neg hfits, if_neg fun h => hfits h.2]
          rfl
      · obtain ⟨byte, more, hbytes, hbyte⟩ := utf8EncodeChar_of_not_isDigit hc
        rw [hbytes, List.cons_append, List.foldlM_cons, checkedStep_eq_none hbyte,
          if_neg fun h => hc h.1]
        rfl

/-- **The reading of the machine is the reading of the language.** -/
theorem checkedReading_eq (sign : Sign) (text : String) :
    checkedReading sign text.toUTF8.data.toList = signedInteger? sign text.toList := by
  have hzero : (0 : Int64) = Int64.ofInt (signFactor sign * (0 : Nat)) := by
    cases sign <;> rfl
  rw [checkedReading, toList_toUTF8, hzero, foldlM_checkedStep (Nat.zero_le _),
    signedInteger?_eq_map]
  rfl

/-! ## What is read -/

/-- **Exactly the runs whose number fits are read**, and as their number. -/
theorem signedInteger?_eq_some_iff (sign : Sign) (text : String) (k : Int64) :
    signedInteger? sign text.toList = some k ↔
      OnlyDigitBytes text.toUTF8.data.toList
        ∧ decimalValue text.toList ≤ signLimit sign
        ∧ k.toInt = signFactor sign * decimalValue text.toList := by
  rw [onlyDigitBytes_iff, signedInteger?_eq_map, Option.map_eq_some_iff]
  constructor
  · rintro ⟨n, hn, rfl⟩
    obtain ⟨hdigits, rfl, hle⟩ := boundedValue_eq_some_iff.mp hn
    exact ⟨hdigits, hle, toInt_signed hle⟩
  · rintro ⟨hdigits, hle, hk⟩
    refine ⟨_, boundedValue_eq_some_iff.mpr ⟨hdigits, rfl, hle⟩, ?_⟩
    rw [← hk, Int64.ofInt_toInt]

theorem isSome_signedInteger? (sign : Sign) (text : String) :
    (signedInteger? sign text.toList).isSome ↔
      OnlyDigitBytes text.toUTF8.data.toList ∧ decimalValue text.toList ≤ signLimit sign := by
  rw [Option.isSome_iff_exists]
  constructor
  · rintro ⟨k, hk⟩
    obtain ⟨hdigits, hle, -⟩ := (signedInteger?_eq_some_iff sign text k).mp hk
    exact ⟨hdigits, hle⟩
  · rintro ⟨hdigits, hle⟩
    exact ⟨_, (signedInteger?_eq_some_iff sign text _).mpr ⟨hdigits, hle, toInt_signed hle⟩⟩

/--
**Both readings are exact.** Each is the checked reading of the bytes; it gives the number of
the text, with its sign, exactly where all bytes are digits and that number is in range; and the
two succeed on the same texts apart from those that spell 2^63, which only the negated reading
takes.
-/
theorem checkedReading_exact (text : String) :
    checkedReading .plus text.toUTF8.data.toList = integer? text.toList
      ∧ checkedReading .minus text.toUTF8.data.toList = negatedInteger? text.toList
      ∧ (∀ n, integer? text.toList = some n ↔
          OnlyDigitBytes text.toUTF8.data.toList
            ∧ decimalValue text.toList ≤ 0x7FFFFFFFFFFFFFFF
            ∧ n.toInt = decimalValue text.toList)
      ∧ (∀ m, negatedInteger? text.toList = some m ↔
          OnlyDigitBytes text.toUTF8.data.toList
            ∧ decimalValue text.toList ≤ 0x8000000000000000
            ∧ m.toInt = -decimalValue text.toList)
      ∧ ((integer? text.toList).isSome ≠ (negatedInteger? text.toList).isSome ↔
          OnlyDigitBytes text.toUTF8.data.toList
            ∧ decimalValue text.toList = 0x8000000000000000) := by
  have hplus : (integer? text.toList).isSome ↔ _ := isSome_signedInteger? .plus text
  have hminus : (negatedInteger? text.toList).isSome ↔ _ := isSome_signedInteger? .minus text
  refine ⟨checkedReading_eq .plus text, checkedReading_eq .minus text, fun n => ?_, fun m => ?_, ?_⟩
  · refine (signedInteger?_eq_some_iff .plus text n).trans ?_
    simp [signLimit, signFactor]
  · refine (signedInteger?_eq_some_iff .minus text m).trans ?_
    simp [signLimit, signFactor]
  · rw [ne_eq, Bool.eq_iff_iff, hplus, hminus]
    simp only [signLimit]
    refine ⟨fun h => ?_, fun ⟨hdigits, hn⟩ h => ?_⟩
    · by_cases hdigits : OnlyDigitBytes text.toUTF8.data.toList
      · refine ⟨hdigits, ?_⟩
        simp only [hdigits, true_and] at h
        omega
      · exact absurd (iff_of_false (fun hp => hdigits hp.1) fun hm => hdigits hm.1) h
    · simp only [hdigits, true_and] at h
      omega

/-- Zeros in front do no harm, and 2^63 is read behind a minus sign only. -/
example : integer? "0009223372036854775808".toList = none
    ∧ negatedInteger? "0009223372036854775808".toList = some Int64.minValue := by
  decide +kernel

end Calculator.Decimal
