import Mathlib.Data.Rat.Cast.Order
import Calculator.Proofs.Expression.Literal
import Calculator.Proofs.Expression.Operation

/-!
# Exact values

`exact` is what an expression means in mathematics: signs, sums, products and quotients
of rational numbers, with nothing rounded and nothing too large. A value is an integer
**exactly as long as the calculation is one in 64-bit integers**: without a division, and
with every signed literal, every partial product and every partial sum in their range.

Both levels of the grammar say this in the same way, and `Chain.exactIntegers` takes it
from the operands to the chain. What it needs of an operation is that the result on two
integers is an integer just where the exact one is in range.
-/

namespace Calculator

/-! ## Exact values and their range -/

/-- The result in mathematics. -/
def Operator.exact : Operator → ℚ → ℚ → ℚ
  | add => fun a b => a + b
  | sub => fun a b => a - b
  | mul => fun a b => a * b
  | div => fun a b => a / b

/-- The number with the sign in front. -/
def Sign.exact : Sign → ℚ → ℚ
  | plus => fun a => a
  | minus => fun a => -a

/-- The number lies between the smallest 64-bit integer and the largest. -/
def Fits (q : ℚ) : Prop := -9223372036854775808 ≤ q ∧ q ≤ 9223372036854775807

namespace Chain

variable {level : Level} {Operand : Type}

/-- The operands from left to right. -/
def operands (c : Chain level Operand) : List Operand := c.first :: c.rest.map Prod.snd

/-- The exact value from left to right, given that of an operand. -/
def exactWith (exact : Operand → ℚ) (c : Chain level Operand) : ℚ :=
  c.rest.foldl (fun left joined => joined.1.1.exact left (exact joined.2)) (exact c.first)

/-- The exact values of the chain up to each of its operands. -/
def partials (exact : Operand → ℚ) (c : Chain level Operand) : List ℚ :=
  c.rest.scanl (fun left joined => joined.1.1.exact left (exact joined.2)) (exact c.first)

/-- No operand leaves the range, and none of the exact values up to an operand does. -/
structure StaysInRange (exact : Operand → ℚ) (inRange : Operand → Prop)
    (c : Chain level Operand) : Prop where
  operands : ∀ x ∈ c.operands, inRange x
  partials : ∀ q ∈ c.partials exact, Fits q

end Chain

/-- The number with all its signs. -/
def Factor.exact (f : Factor) : ℚ := f.signs.foldr Sign.exact (Decimal.decimalValue f.digits)

def Term.exact (t : Term) : ℚ := t.exactWith Factor.exact

def Expression.exact (e : Expression) : ℚ := e.exactWith Term.exact

/-- No signed literal and no partial product leaves the range. -/
def Term.StaysInRange (t : Term) : Prop :=
  Chain.StaysInRange Factor.exact (fun f => Fits f.exact) t

/-- No signed literal, no partial product of a term and no partial sum leaves the range. -/
def Expression.StaysInRange (e : Expression) : Prop :=
  Chain.StaysInRange Term.exact Term.StaysInRange e

theorem fits_intCast_iff {z : Int} : Fits (z : ℚ) ↔ InRange z := by
  unfold Fits InRange
  norm_cast

theorem fits_toInt (n : Int64) : Fits (n.toInt : ℚ) := fits_intCast_iff.mpr (inRange_toInt n)

namespace Chain

variable {level : Level} {Operand : Type}

@[simp] theorem operands_single (x : Operand) :
    (single x : Chain level Operand).operands = [x] := rfl

@[simp] theorem operands_snoc (c : Chain level Operand)
    (op : { op : Operator // op.level = level }) (x : Operand) :
    (c.snoc op x).operands = c.operands ++ [x] := by
  simp [operands, snoc]

@[simp] theorem exactWith_single (exact : Operand → ℚ) (x : Operand) :
    (single x : Chain level Operand).exactWith exact = exact x := rfl

@[simp] theorem exactWith_snoc (exact : Operand → ℚ) (c : Chain level Operand)
    (op : { op : Operator // op.level = level }) (x : Operand) :
    (c.snoc op x).exactWith exact = op.1.exact (c.exactWith exact) (exact x) := by
  simp [exactWith, snoc]

@[simp] theorem partials_single (exact : Operand → ℚ) (x : Operand) :
    (single x : Chain level Operand).partials exact = [exact x] := by
  simp [single, partials]

@[simp] theorem partials_snoc (exact : Operand → ℚ) (c : Chain level Operand)
    (op : { op : Operator // op.level = level }) (x : Operand) :
    (c.snoc op x).partials exact = c.partials exact ++ [(c.snoc op x).exactWith exact] := by
  simp [partials, exactWith, snoc, List.scanl_append]

theorem staysInRange_single {exact : Operand → ℚ} {inRange : Operand → Prop} {x : Operand} :
    StaysInRange exact inRange (single x : Chain level Operand) ↔ inRange x ∧ Fits (exact x) := by
  refine ⟨fun h => ⟨h.operands x (by simp), h.partials _ (by simp)⟩, fun h => ?_⟩
  obtain ⟨hx, hfits⟩ := h
  exact ⟨by simpa using hx, by simpa using hfits⟩

theorem staysInRange_snoc {exact : Operand → ℚ} {inRange : Operand → Prop}
    {c : Chain level Operand} {op : { op : Operator // op.level = level }} {x : Operand} :
    StaysInRange exact inRange (c.snoc op x) ↔
      StaysInRange exact inRange c ∧ inRange x ∧ Fits ((c.snoc op x).exactWith exact) := by
  refine ⟨fun h => ?_, fun h => ?_⟩
  · obtain ⟨hoperands, hpartials⟩ := h
    rw [operands_snoc, List.forall_mem_append] at hoperands
    rw [partials_snoc, List.forall_mem_append] at hpartials
    exact ⟨⟨hoperands.1, hpartials.1⟩, hoperands.2 x List.mem_cons_self,
      hpartials.2 _ List.mem_cons_self⟩
  · obtain ⟨hc, hx, hfits⟩ := h
    refine ⟨?_, ?_⟩
    · rw [operands_snoc, List.forall_mem_append]
      exact ⟨hc.operands, by simpa using hx⟩
    · rw [partials_snoc, List.forall_mem_append]
      exact ⟨hc.partials, by simpa using hfits⟩

end Chain

/-! ## Operations on integers -/

theorem Value.ofReal_ne_integer (x : Binary64) (n : Int64) : Value.ofReal x ≠ .ok (.integer n) := by
  unfold Value.ofReal
  split <;> exact fun h => by cases h

/-- An integer result is an exact one. -/
theorem Value.toInt_of_ofInt? {z : Int} {n : Int64} (h : Value.ofInt? z = some (.integer n)) :
    n.toInt = z := by
  by_cases hr : InRange z
  · rw [Value.ofInt?_of_inRange hr] at h
    cases h
    exact toInt_ofInt hr
  · rw [Value.ofInt?_of_not_inRange hr] at h
    cases h

namespace Operator

/-- On integers everything but division is tried exactly. -/
theorem integral?_integer {op : Operator} (h : op ≠ .div) (a b : Int64) :
    ∃ z : Int, op.exact a.toInt b.toInt = z
      ∧ op.integral? (.integer a) (.integer b) = Value.ofInt? z := by
  cases op with
  | add => exact ⟨a.toInt + b.toInt, by rw [Int.cast_add]; rfl, rfl⟩
  | sub => exact ⟨a.toInt - b.toInt, by rw [Int.cast_sub]; rfl, rfl⟩
  | mul => exact ⟨a.toInt * b.toInt, by rw [Int.cast_mul]; rfl, rfl⟩
  | div => exact absurd rfl h

theorem integers_of_integral? {op : Operator} {l r v : Value} (h : op.integral? l r = some v) :
    op ≠ .div ∧ ∃ a b, l = .integer a ∧ r = .integer b := by
  cases op <;> cases l <;> cases r <;> simp [integral?] at h ⊢

/-- **An integer comes from integers**, exactly and without a division. -/
theorem integers_of_apply {op : Operator} {l r : Value} {n : Int64}
    (h : op.apply l r = .ok (.integer n)) :
    op ≠ .div ∧ ∃ a b, l = .integer a ∧ r = .integer b
      ∧ op.exact a.toInt b.toInt = n.toInt := by
  unfold apply at h
  split at h
  · cases h
  · split at h
    · rename_i v hv
      cases h
      obtain ⟨hdiv, a, b, rfl, rfl⟩ := integers_of_integral? hv
      obtain ⟨z, hz, hint⟩ := integral?_integer hdiv a b
      rw [hint] at hv
      exact ⟨hdiv, a, b, rfl, rfl, by rw [hz, Value.toInt_of_ofInt? hv]⟩
    · exact absurd h (Value.ofReal_ne_integer _ n)

/-- **Integers give an integer** as long as the exact result is one in range. -/
theorem exists_integer {op : Operator} {a b : Int64} (hdiv : op ≠ .div)
    (hfits : Fits (op.exact a.toInt b.toInt)) :
    ∃ n, op.apply (.integer a) (.integer b) = .ok (.integer n) := by
  obtain ⟨z, hz, hint⟩ := integral?_integer hdiv a b
  rw [hz, fits_intCast_iff] at hfits
  refine ⟨Int64.ofInt z, ?_⟩
  rw [apply, if_neg (fun h => hdiv h.1), hint, Value.ofInt?_of_inRange hfits]

end Operator

/-! ## Trees -/

/-- The value of a tree is an integer just where no division is made and the range is kept. -/
structure ExactIntegers {T : Type} (words : T → List (List Char))
    (value : T → Except Cause Value) (exact : T → ℚ) (inRange : T → Prop) : Prop where
  sound : ∀ {x n}, value x = .ok (.integer n) →
    ['/'] ∉ words x ∧ inRange x ∧ exact x = n.toInt
  complete : ∀ {x}, ['/'] ∉ words x → inRange x → ∃ n, value x = .ok (.integer n)

/-- A slash among the words is a division. -/
theorem Operator.text_eq_slash_iff {op : Operator} : ['/'] = op.text.toList ↔ op = .div := by
  have hslash : ['/'] = Operator.div.text.toList := rfl
  refine ⟨fun h => Operator.text_injective (h.symm.trans hslash), fun h => ?_⟩
  rw [h, hslash]

theorem Factor.slash_not_mem_words (f : Factor) : ['/'] ∉ f.words := by
  rw [Factor.words, List.mem_append, List.mem_map, List.mem_singleton]
  intro h
  rcases h with ⟨s, _, hs⟩ | hdigits
  · cases s <;> exact absurd hs (by decide)
  · -- it would have to be a digit
    have hslash := f.isDigit '/' (hdigits ▸ List.mem_cons_self)
    exact absurd hslash (by decide)

theorem Chain.slash_not_mem_words_snoc {level : Level} {Operand : Type}
    {words : Operand → List (List Char)} {c : Chain level Operand}
    {op : { op : Operator // op.level = level }} {x : Operand} :
    ['/'] ∉ (c.snoc op x).wordsWith words ↔
      ['/'] ∉ c.wordsWith words ∧ op.1 ≠ .div ∧ ['/'] ∉ words x := by
  rw [wordsWith_snoc, List.mem_append, List.mem_cons, Operator.text_eq_slash_iff, not_or, not_or]

/-- The signs of a run taken one by one. -/
theorem Sign.foldr_exact (signs : List Sign) (q : ℚ) :
    signs.foldr Sign.exact q = (Sign.ofRun signs).exact q := by
  induction signs with
  | nil => rfl
  | cons s signs ih =>
      rw [List.foldr_cons, ih, Sign.ofRun_cons]
      cases s <;> cases Sign.ofRun signs <;> simp [Sign.exact, Sign.combine]

/-- A literal by itself is an integer just where its number is one in range. -/
theorem Factor.literalValue_of_inRange {f : Factor} (h : InRange (Decimal.decimalValue f.digits)) :
    f.literalValue = .ok (.integer (Int64.ofInt (Decimal.decimalValue f.digits))) := by
  unfold Factor.literalValue
  dsimp only
  rw [Value.ofInt?_of_inRange h]

theorem Factor.exists_real_of_literalValue {f : Factor} {v : Value}
    (h : ¬ InRange (Decimal.decimalValue f.digits)) (hv : f.literalValue = .ok v) :
    ∃ x, v = .real x := by
  unfold Factor.literalValue at hv
  dsimp only at hv
  rw [Value.ofInt?_of_not_inRange h] at hv
  generalize Binary64.Magnitude.round
    (Decimal.decimalValue f.digits <<< Binary64.fractionPlaces) 1 = rounded at hv
  cases rounded with
  | none => cases hv
  | some m =>
      cases hv
      exact ⟨_, rfl⟩

/-- **A signed literal is an integer** just where the number with its signs is one in range. -/
theorem Factor.exactIntegers :
    ExactIntegers Factor.words Factor.value Factor.exact (fun f => Fits f.exact) := by
  have hcases : ∀ f : Factor, ∃ z : Int, f.exact = z
      ∧ (InRange z → f.value = .ok (.integer (Int64.ofInt z)))
      ∧ (¬ InRange z → ∀ n, f.value ≠ .ok (.integer n)) := by
    intro f
    -- the number itself or its negation, whichever the signs amount to
    rw [Factor.exact, Sign.foldr_exact]
    unfold Factor.value
    cases Sign.ofRun f.signs with
    | plus =>
        refine ⟨Decimal.decimalValue f.digits, by rw [Int.cast_natCast]; rfl, fun hr => ?_,
          fun hr n h => ?_⟩
        · rw [Factor.literalValue_of_inRange hr]
          rfl
        · cases hv : f.literalValue with
          | error e => rw [hv] at h; cases h
          | ok v =>
              obtain ⟨x, rfl⟩ := Factor.exists_real_of_literalValue hr hv
              rw [hv] at h
              cases h
    | minus =>
        refine ⟨-Decimal.decimalValue f.digits, by rw [Int.cast_neg, Int.cast_natCast]; rfl,
          fun hr => ?_, fun hr n h => ?_⟩
        · rw [Value.ofInt?_of_inRange hr]
        · rw [Value.ofInt?_of_not_inRange hr] at h
          -- the number is so large that it is real by itself
          have hlarge : ¬ InRange (Decimal.decimalValue f.digits) := by
            unfold InRange at hr ⊢
            omega
          cases hv : f.literalValue with
          | error e => rw [hv] at h; cases h
          | ok v =>
              obtain ⟨x, rfl⟩ := Factor.exists_real_of_literalValue hlarge hv
              rw [hv] at h
              cases h
  refine ⟨fun {f n} h => ?_, fun {f} _ hfits => ?_⟩
  · obtain ⟨z, hz, hin, hout⟩ := hcases f
    by_cases hr : InRange z
    · rw [hin hr] at h
      cases h
      exact ⟨f.slash_not_mem_words, hz ▸ fits_intCast_iff.mpr hr, by rw [hz, toInt_ofInt hr]⟩
    · exact absurd h (hout hr n)
  · obtain ⟨z, hz, hin, _⟩ := hcases f
    rw [hz, fits_intCast_iff] at hfits
    exact ⟨_, hin hfits⟩

/-- **Chains inherit it from their operands.** -/
theorem Chain.exactIntegers {level : Level} {Operand : Type} {words : Operand → List (List Char)}
    {value : Operand → Except Cause Value} {exact : Operand → ℚ} {inRange : Operand → Prop}
    (h : ExactIntegers words value exact inRange) :
    ExactIntegers (fun c : Chain level Operand => c.wordsWith words) (fun c => c.valueWith value)
      (fun c => c.exactWith exact) (StaysInRange exact inRange) := by
  have hsound : ∀ (c : Chain level Operand) (n : Int64), c.valueWith value = .ok (.integer n) →
      ['/'] ∉ c.wordsWith words ∧ StaysInRange exact inRange c ∧ c.exactWith exact = n.toInt := by
    intro c
    induction c using Chain.induction_snoc with
    | single x =>
        intro n hv
        rw [valueWith_single] at hv
        obtain ⟨hslash, hx, hexact⟩ := h.sound hv
        rw [wordsWith_single, staysInRange_single, exactWith_single]
        exact ⟨hslash, ⟨hx, hexact ▸ fits_toInt n⟩, hexact⟩
    | snoc c op x ih =>
        intro n hv
        obtain ⟨l, r, hl, hr, happly⟩ := valueWith_snoc_eq_ok_iff.mp hv
        obtain ⟨hdiv, a, b, rfl, rfl, hab⟩ := Operator.integers_of_apply happly
        -- the chain so far and the operand are integers, so both are exact
        obtain ⟨hcslash, hc, hcexact⟩ := ih a hl
        obtain ⟨hxslash, hx, hxexact⟩ := h.sound hr
        have hexact : (c.snoc op x).exactWith exact = n.toInt := by
          rw [exactWith_snoc, hcexact, hxexact, hab]
        rw [slash_not_mem_words_snoc, staysInRange_snoc]
        exact ⟨⟨hcslash, hdiv, hxslash⟩, ⟨hc, hx, hexact ▸ fits_toInt n⟩, hexact⟩
  refine ⟨fun {c n} hv => hsound c n hv, fun {c} => ?_⟩
  induction c using Chain.induction_snoc with
  | single x =>
      intro hslash hrange
      rw [wordsWith_single] at hslash
      rw [valueWith_single]
      exact h.complete hslash (staysInRange_single.mp hrange).1
  | snoc c op x ih =>
      intro hslash hrange
      obtain ⟨hcslash, hdiv, hxslash⟩ := slash_not_mem_words_snoc.mp hslash
      obtain ⟨hc, hx, hfits⟩ := staysInRange_snoc.mp hrange
      obtain ⟨a, ha⟩ := ih hcslash hc
      obtain ⟨b, hb⟩ := h.complete hxslash hx
      -- the exact operands are the computed ones, so their exact result is in range
      rw [exactWith_snoc, (hsound c a ha).2.2, (h.sound hb).2.2] at hfits
      obtain ⟨n, hn⟩ := Operator.exists_integer hdiv hfits
      exact ⟨n, valueWith_snoc_eq_ok_iff.mpr ⟨_, _, ha, hb, hn⟩⟩

theorem Term.exactIntegers :
    ExactIntegers Term.words Term.value Term.exact Term.StaysInRange :=
  Chain.exactIntegers Factor.exactIntegers

/-- **An expression is an integer** just where its calculation is one in 64-bit integers. -/
theorem Expression.exactIntegers :
    ExactIntegers Expression.words Expression.value Expression.exact Expression.StaysInRange :=
  Chain.exactIntegers Term.exactIntegers

end Calculator
