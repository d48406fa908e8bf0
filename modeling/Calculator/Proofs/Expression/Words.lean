import Mathlib.Data.List.Chain
import Mathlib.Data.List.Induction
import Calculator.Expression.Tree
import Calculator.Proofs.Source.Lexeme

/-!
# A tree and its words

Trees are read from left to right, so they grow at the end: a chain is a single operand,
or a chain with an operator and one more operand behind it. `Chain.induction_snoc` is
induction along this growth.

Two facts about words carry the theory of the grammar.

* **The words determine the tree.** A factor ends with its literal, and a chain goes on
  for as long as one of its operators follows. So a tree can be told apart from whatever
  stands behind it, as long as that is no operator that would continue the tree.
* **Neighbours decide.** Behind a numeral stands an operator or the end, behind anything
  else a numeral or a sign. A word that does not go with the one before it can be part of
  no expression, whatever follows.
-/

namespace Calculator

namespace Chain

variable {level : Level} {Operand : Type}

/-- An operand by itself. -/
def single (x : Operand) : Chain level Operand := ⟨x, []⟩

/-- A chain with one more operand at its end. -/
def snoc (c : Chain level Operand) (op : { op : Operator // op.level = level }) (x : Operand) :
    Chain level Operand := ⟨c.first, c.rest ++ [(op, x)]⟩

/-- The last operand. -/
def last (c : Chain level Operand) : Operand := ((c.rest.getLast?).map Prod.snd).getD c.first

@[simp] theorem last_single (x : Operand) : (single x : Chain level Operand).last = x := rfl

@[simp] theorem last_snoc (c : Chain level Operand) (op : { op : Operator // op.level = level })
    (x : Operand) : (c.snoc op x).last = x := by
  simp [last, snoc]

/-- **Chains grow at the end.** -/
theorem induction_snoc {motive : Chain level Operand → Prop} (single : ∀ x, motive (single x))
    (snoc : ∀ c op x, motive c → motive (c.snoc op x)) (c : Chain level Operand) : motive c := by
  obtain ⟨first, rest⟩ := c
  induction rest using List.reverseRecOn with
  | nil => exact single first
  | append_singleton rest joined ih => exact snoc ⟨first, rest⟩ joined.1 joined.2 ih

theorem single_or_snoc (c : Chain level Operand) :
    (∃ x, c = single x) ∨ ∃ d op x, c = snoc d op x := by
  induction c using induction_snoc with
  | single x => exact .inl ⟨x, rfl⟩
  | snoc d op x _ => exact .inr ⟨d, op, x, rfl⟩

theorem snoc_inj {c d : Chain level Operand} {op op' : { op : Operator // op.level = level }}
    {x y : Operand} (h : c.snoc op x = d.snoc op' y) : c = d ∧ op = op' ∧ x = y := by
  obtain ⟨c₀, cs⟩ := c
  obtain ⟨d₀, ds⟩ := d
  simp only [snoc, Chain.mk.injEq] at h
  obtain ⟨rfl, hrest⟩ := h
  obtain ⟨rfl, hjoined⟩ := List.append_inj' hrest rfl
  obtain ⟨rfl, rfl⟩ := Prod.mk.inj (List.cons.inj hjoined).1
  exact ⟨rfl, rfl, rfl⟩

theorem single_ne_snoc {c : Chain level Operand} {op : { op : Operator // op.level = level }}
    {x y : Operand} : single x ≠ c.snoc op y := by
  intro h
  have hrest : [] = c.rest ++ [(op, y)] := congrArg Chain.rest h
  simp at hrest

@[simp] theorem wordsWith_single (words : Operand → List (List Char)) (x : Operand) :
    (single x : Chain level Operand).wordsWith words = words x := by
  simp [single, wordsWith]

@[simp] theorem wordsWith_snoc (words : Operand → List (List Char)) (c : Chain level Operand)
    (op : { op : Operator // op.level = level }) (x : Operand) :
    (c.snoc op x).wordsWith words = c.wordsWith words ++ op.1.text.toList :: words x := by
  simp [snoc, wordsWith]

@[simp] theorem valueWith_single (value : Operand → Except Cause Value) (x : Operand) :
    (single x : Chain level Operand).valueWith value = value x := by
  cases h : value x <;> simp [single, valueWith, h]

/-- The value of a chain that has grown: what was there, the operand, the operation. -/
theorem valueWith_snoc (value : Operand → Except Cause Value) (c : Chain level Operand)
    (op : { op : Operator // op.level = level }) (x : Operand) :
    (c.snoc op x).valueWith value = (do
      let left ← c.valueWith value
      let right ← value x
      op.1.apply left right) := by
  simp only [snoc, valueWith, List.foldlM_append, List.foldlM_cons, List.foldlM_nil, bind_pure,
    bind_assoc]

theorem valueWith_snoc_eq_ok_iff {value : Operand → Except Cause Value} {c : Chain level Operand}
    {op : { op : Operator // op.level = level }} {x : Operand} {v : Value} :
    (c.snoc op x).valueWith value = .ok v ↔
      ∃ l r, c.valueWith value = .ok l ∧ value x = .ok r ∧ op.1.apply l r = .ok v := by
  rw [valueWith_snoc]
  refine ⟨fun h => ?_, fun h => ?_⟩
  · cases hl : c.valueWith value with
    | error e => rw [hl] at h; cases h
    | ok l =>
        rw [hl] at h
        cases hr : value x with
        | error e => rw [hr] at h; cases h
        | ok r =>
            rw [hr] at h
            exact ⟨l, r, rfl, rfl, h⟩
  · obtain ⟨l, r, hl, hr, happly⟩ := h
    rw [hl, hr]
    exact happly

end Chain

/-! ## The words determine the tree -/

theorem Operator.text_injective {op op' : Operator} (h : op.text.toList = op'.text.toList) :
    op = op' := by
  cases op <;> cases op' <;> first | rfl | exact absurd h (by decide)

theorem Sign.text_injective {s t : Sign} (h : s.text.toList = t.text.toList) : s = t := by
  cases s <;> cases t <;> first | rfl | exact absurd h (by decide)

theorem Operator.not_numeral (op : Operator) : ¬ Numeral op.text.toList := by
  intro h
  cases op <;> exact absurd (h.isDigit _ List.mem_cons_self) (by decide)

theorem Sign.not_numeral (s : Sign) : ¬ Numeral s.text.toList := by
  intro h
  cases s <;> exact absurd (h.isDigit _ List.mem_cons_self) (by decide)

theorem not_numeral_nil : ¬ Numeral [] := fun h => h.ne_nil rfl

theorem Factor.numeral (f : Factor) : Numeral f.digits := ⟨f.digits_ne_nil, f.isDigit⟩

/-- No operator of the level comes first. -/
def EndsChain (level : Level) (ws : List (List Char)) : Prop :=
  ∀ op : Operator, op.level = level → ws.head? ≠ some op.text.toList

theorem endsChain_nil (level : Level) : EndsChain level [] := by
  intro op _ h
  cases h

/-- An operator of one level ends a chain of the other. -/
theorem endsChain_cons_operator {level : Level} {op : Operator} (h : op.level ≠ level)
    (ws : List (List Char)) : EndsChain level (op.text.toList :: ws) := by
  intro op' hop' heq
  exact h (Operator.text_injective (Option.some.inj heq) ▸ hop')

/-- **A factor ends with its literal**, whatever stands behind it. -/
theorem Factor.words_append_inj {f g : Factor} {as bs : List (List Char)}
    (h : f.words ++ as = g.words ++ bs) : f = g ∧ as = bs := by
  obtain ⟨fs, fd, hfne, hfd⟩ := f
  obtain ⟨gs, gd, hgne, hgd⟩ := g
  simp only [Factor.words, List.append_assoc, List.singleton_append] at h
  induction fs generalizing gs with
  | nil =>
      cases gs with
      | nil =>
          obtain ⟨rfl, rfl⟩ := List.cons.inj h
          exact ⟨rfl, rfl⟩
      | cons t gs =>
          -- a literal is no sign
          have hdigits : fd = t.text.toList := (List.cons.inj h).1
          exact absurd (hdigits ▸ ⟨hfne, hfd⟩) t.not_numeral
  | cons s fs ih =>
      cases gs with
      | nil =>
          have hdigits : gd = s.text.toList := (List.cons.inj h).1.symm
          exact absurd (hdigits ▸ ⟨hgne, hgd⟩) s.not_numeral
      | cons t gs =>
          obtain ⟨hst, htail⟩ := List.cons.inj h
          obtain ⟨heq, hrest⟩ := ih gs htail
          injection heq with hsigns hdigits
          subst hsigns
          subst hdigits
          exact ⟨by rw [Sign.text_injective hst], hrest⟩

/--
**A chain ends where none of its operators follows.** `follow` is what ends an operand,
which every operator of the level does.
-/
theorem Chain.wordsWith_append_inj {level : Level} {Operand : Type}
    {words : Operand → List (List Char)} (follow : List (List Char) → Prop)
    (hx : ∀ {x y as bs}, follow as → follow bs → words x ++ as = words y ++ bs → x = y ∧ as = bs)
    (hop : ∀ op : Operator, op.level = level → ∀ ws, follow (op.text.toList :: ws))
    {c d : Chain level Operand} {as bs : List (List Char)}
    (ha : follow as ∧ EndsChain level as) (hb : follow bs ∧ EndsChain level bs)
    (h : c.wordsWith words ++ as = d.wordsWith words ++ bs) : c = d ∧ as = bs := by
  obtain ⟨c₀, cs⟩ := c
  obtain ⟨d₀, ds⟩ := d
  have hfollow : ∀ (rest : List ({ op : Operator // op.level = level } × Operand)) {ws},
      follow ws →
        follow ((rest.flatMap fun joined => joined.1.1.text.toList :: words joined.2) ++ ws) := by
    intro rest ws hws
    cases rest with
    | nil => exact hws
    | cons joined rest => exact hop joined.1.1 joined.1.2 _
  simp only [Chain.wordsWith, List.append_assoc] at h
  obtain ⟨rfl, hrest⟩ := hx (hfollow cs ha.1) (hfollow ds hb.1) h
  clear h
  -- from here on it is about the operands behind the first one
  suffices hs : cs = ds ∧ as = bs from ⟨by rw [hs.1], hs.2⟩
  induction cs generalizing ds with
  | nil =>
      cases ds with
      | nil => exact ⟨rfl, hrest⟩
      | cons joined ds =>
          -- the other chain would go on where this one ends
          have hhead : as.head? = some joined.1.1.text.toList := congrArg List.head? hrest
          exact absurd hhead (ha.2 _ joined.1.2)
  | cons joined cs ih =>
      cases ds with
      | nil =>
          have hhead : bs.head? = some joined.1.1.text.toList := congrArg List.head? hrest.symm
          exact absurd hhead (hb.2 _ joined.1.2)
      | cons joined' ds =>
          simp only [List.flatMap_cons, List.cons_append, List.append_assoc] at hrest
          obtain ⟨hop', htail⟩ := List.cons.inj hrest
          obtain ⟨hxy, htail⟩ := hx (hfollow cs ha.1) (hfollow ds hb.1) htail
          obtain ⟨hds, hab⟩ := ih ds htail
          have hj : joined = joined' :=
            Prod.ext (Subtype.ext (Operator.text_injective hop')) hxy
          exact ⟨by rw [hj, hds], hab⟩

theorem Term.words_append_inj {t u : Term} {as bs : List (List Char)}
    (ha : EndsChain .multiplicative as) (hb : EndsChain .multiplicative bs)
    (h : t.words ++ as = u.words ++ bs) : t = u ∧ as = bs :=
  Chain.wordsWith_append_inj (fun _ => True) (fun _ _ h => Factor.words_append_inj h)
    (fun _ _ _ => trivial) ⟨trivial, ha⟩ ⟨trivial, hb⟩ h

/-- **The grammar is unambiguous.** -/
theorem Expression.words_injective {e e' : Expression} (h : e.words = e'.words) : e = e' := by
  have hends : EndsChain .multiplicative [] ∧ EndsChain .additive [] :=
    ⟨endsChain_nil _, endsChain_nil _⟩
  refine (Chain.wordsWith_append_inj (EndsChain .multiplicative) Term.words_append_inj
    (fun op hop ws => endsChain_cons_operator (by rw [hop]; decide) ws) hends hends ?_).1
  rw [List.append_nil, List.append_nil]
  exact h

/-! ## The longest tree -/

/--
**Where no operator of the level follows, a chain is the longest one** that the words begin with.
The other one may break off in the middle of an operand, so of its last operand no more can be
asked than that this is no longer either.
-/
theorem Chain.length_wordsWith_le {level : Level} {Operand : Type}
    {words : Operand → List (List Char)} (follow : List (List Char) → Prop)
    (hinj : ∀ {x y as bs}, follow as → follow bs → words x ++ as = words y ++ bs →
      x = y ∧ as = bs)
    (hx : ∀ {x y as bs}, follow as → words x ++ as = words y ++ bs →
      (words y).length ≤ (words x).length)
    (hop : ∀ op : Operator, op.level = level → ∀ ws, follow (op.text.toList :: ws))
    {c d : Chain level Operand} {as bs : List (List Char)}
    (ha : follow as ∧ EndsChain level as)
    (h : c.wordsWith words ++ as = d.wordsWith words ++ bs) :
    (d.wordsWith words).length ≤ (c.wordsWith words).length := by
  obtain ⟨c₀, cs⟩ := c
  obtain ⟨d₀, ds⟩ := d
  have hfollow : ∀ rest : List ({ op : Operator // op.level = level } × Operand),
      follow ((rest.flatMap fun joined => joined.1.1.text.toList :: words joined.2) ++ as) := by
    intro rest
    cases rest with
    | nil => exact ha.1
    | cons joined rest => exact hop joined.1.1 joined.1.2 _
  simp only [Chain.wordsWith, List.append_assoc] at h ⊢
  induction ds generalizing c₀ cs d₀ with
  | nil =>
      have hle := hx (hfollow cs) h
      rw [List.flatMap_nil, List.append_nil, List.length_append]
      omega
  | cons joined ds ih =>
      rw [List.flatMap_cons, List.append_assoc, List.cons_append] at h
      -- the first operands are the same, since an operator stands behind both
      obtain ⟨rfl, hrest⟩ := hinj (hfollow cs) (hop joined.1.1 joined.1.2 _) h
      cases cs with
      | nil =>
          have hhead : as.head? = some joined.1.1.text.toList := congrArg List.head? hrest
          exact absurd hhead (ha.2 _ joined.1.2)
      | cons joined' cs =>
          rw [List.flatMap_cons, List.append_assoc, List.cons_append] at hrest
          have hle := ih joined'.2 cs joined.2 (List.cons.inj hrest).2
          simp only [List.flatMap_cons, List.length_append, List.length_cons] at hle ⊢
          omega

theorem Term.length_words_le {t u : Term} {as bs : List (List Char)}
    (ha : EndsChain .multiplicative as) (h : t.words ++ as = u.words ++ bs) :
    u.words.length ≤ t.words.length :=
  Chain.length_wordsWith_le (fun _ => True) (fun _ _ h => Factor.words_append_inj h)
    (fun _ h => Nat.le_of_eq (by rw [(Factor.words_append_inj h).1])) (fun _ _ _ => trivial)
    ⟨trivial, ha⟩ h

theorem Expression.length_words_le {e e' : Expression} {as bs : List (List Char)}
    (ha : EndsChain .multiplicative as ∧ EndsChain .additive as)
    (h : e.words ++ as = e'.words ++ bs) : e'.words.length ≤ e.words.length :=
  Chain.length_wordsWith_le (EndsChain .multiplicative) Term.words_append_inj
    Term.length_words_le (fun op hop ws => endsChain_cons_operator (by rw [hop]; decide) ws) ha h

/-! ## Neighbours -/

/-- The second word may stand behind the first. -/
def Adjacent (a b : List Char) : Prop :=
  (Numeral a → ¬ Numeral b) ∧ (¬ Numeral a → Numeral b ∨ ∃ s : Sign, b = s.text.toList)

/-- The words may stand behind a numeral. -/
def Closes (ws : List (List Char)) : Prop :=
  ∀ a, Numeral a → List.IsChain Adjacent (a :: ws)

theorem closes_end : Closes [[]] := by
  intro a ha
  rw [List.isChain_cons_cons]
  exact ⟨⟨fun _ => not_numeral_nil, fun h => absurd ha h⟩, List.IsChain.singleton _⟩

/-- A factor may stand behind whatever is no numeral. -/
theorem Factor.isChain_words (f : Factor) {a : List Char} {ws : List (List Char)}
    (ha : ¬ Numeral a) (hws : Closes ws) : List.IsChain Adjacent (a :: (f.words ++ ws)) := by
  obtain ⟨signs, digits, hne, hd⟩ := f
  have hdigits : Numeral digits := ⟨hne, hd⟩
  simp only [Factor.words, List.append_assoc, List.singleton_append]
  induction signs generalizing a with
  | nil =>
      rw [List.map_nil, List.nil_append, List.isChain_cons_cons]
      exact ⟨⟨fun h => absurd h ha, fun _ => .inl hdigits⟩, hws _ hdigits⟩
  | cons s signs ih =>
      rw [List.map_cons, List.cons_append, List.isChain_cons_cons]
      exact ⟨⟨fun h => absurd h ha, fun _ => .inr ⟨s, rfl⟩⟩, ih s.not_numeral⟩

theorem Chain.isChain_words {level : Level} {Operand : Type} {words : Operand → List (List Char)}
    (hx : ∀ x {a ws}, ¬ Numeral a → Closes ws → List.IsChain Adjacent (a :: (words x ++ ws)))
    (c : Chain level Operand) {a : List Char} {ws : List (List Char)} (ha : ¬ Numeral a)
    (hws : Closes ws) : List.IsChain Adjacent (a :: (c.wordsWith words ++ ws)) := by
  obtain ⟨first, rest⟩ := c
  rw [Chain.wordsWith, List.append_assoc]
  refine hx first ha ?_
  induction rest with
  | nil => exact hws
  | cons joined rest ih =>
      intro b hb
      rw [List.flatMap_cons, List.append_assoc, List.cons_append, List.isChain_cons_cons]
      exact ⟨⟨fun _ => joined.1.1.not_numeral, fun h => absurd hb h⟩,
        hx joined.2 joined.1.1.not_numeral ih⟩

/-- **In an expression and its end, every word goes with the one before it.** -/
theorem Expression.isChain_words (e : Expression) {a : List Char} (ha : ¬ Numeral a) :
    List.IsChain Adjacent (a :: (e.words ++ [[]])) :=
  Chain.isChain_words (fun t _ _ ha hws => Chain.isChain_words
    (fun f _ _ ha hws => f.isChain_words ha hws) t ha hws) e ha closes_end

/-! ## Beginnings of expressions -/

/-- Some expression, with the end of input behind it, begins with these words. -/
def Viable (ws : List (List Char)) : Prop := ∃ e : Expression, ws <+: e.words ++ [[]]

theorem Viable.of_append {as bs : List (List Char)} (h : Viable (as ++ bs)) : Viable as := by
  obtain ⟨e, he⟩ := h
  exact ⟨e, (List.prefix_append as bs).trans he⟩

theorem Expression.viable_words_end (e : Expression) : Viable (e.words ++ [[]]) :=
  ⟨e, List.prefix_refl _⟩

theorem Expression.viable_words (e : Expression) : Viable e.words := e.viable_words_end.of_append

/-- **A word that does not go with the one before it cannot be read.** -/
theorem Viable.adjacent {as : List (List Char)} {b : List Char} (h : Viable (as ++ [b])) :
    Adjacent (as.getLast?.getD ['+']) b := by
  obtain ⟨e, bs, hbs⟩ := h
  -- an expression can stand behind a sign, which takes the place of a word in front
  have hchain := e.isChain_words (a := ['+']) Sign.plus.not_numeral
  rw [← hbs] at hchain
  cases as using List.reverseRecOn with
  | nil => exact (List.isChain_cons_cons.mp hchain).1
  | append_singleton as a =>
      rw [List.append_assoc, List.append_assoc] at hchain
      rw [List.getLast?_concat, Option.getD_some]
      exact (List.isChain_cons_append_cons_cons.mp hchain).2.1

end Calculator
