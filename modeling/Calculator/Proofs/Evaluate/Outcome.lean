import Calculator.Evaluate
import Calculator.Proofs.Expression.Operation
import Calculator.Proofs.Expression.Reading

/-!
# How an evaluation ends

`ends_evaluate` says of every source how its evaluation ends and what has been read by
then. An evaluation that goes well has read all. One that goes wrong has read a beginning
of the source without an error, and stops at the next item, `bad`:

* an item that **cannot be read**;
* a token that is **no operand** where one is awaited;
* a number where an **expression is complete**;
* any token, when the **operation** in front of it has failed.

In front of the last literal everything is computed by then. `Awaits` describes the words
up to there: they break off where an operand has to follow.
-/

namespace Calculator

/-- An operand is awaited behind these words, and what stands before it is computed. -/
inductive Awaits (ws : List (List Char)) : Prop where
  | start (signs : List Sign) : ws = signs.map (fun sign => sign.text.toList) → Awaits ws
  | product {e : Expression} (op : { op : Operator // op.level = .multiplicative })
      (signs : List Sign) : e.Computed →
      ws = e.words ++ op.1.text.toList :: signs.map (fun sign => sign.text.toList) → Awaits ws
  | sum {e : Expression} {v : Value} (op : { op : Operator // op.level = .additive })
      (signs : List Sign) : e.value = .ok v →
      ws = e.words ++ op.1.text.toList :: signs.map (fun sign => sign.text.toList) → Awaits ws

/-- At the item `bad`, behind the items that were read, the evaluation stops with an error. -/
inductive StopsAt (read : List Span) (bad : Span) : Error → Prop where
  /-- The item cannot be read. -/
  | unreadable {e : Error} : Awaits (read.map Span.text) → bad.outcome = .error e →
      StopsAt read bad e
  /-- The item cannot be read, and a literal waits for it. -/
  | behind {as : List (List Char)} {digits : List Char} {e : Error} : Awaits as →
      Numeral digits → read.map Span.text = as ++ [digits] → bad.outcome = .error e →
      StopsAt read bad e
  /-- The item is no operand. -/
  | missing {found : Token} : Awaits (read.map Span.text) → bad.outcome = .ok found →
      found.sign? = none → found.value? = none →
      StopsAt read bad ⟨.unexpectedTokenInFactor found, bad.start⟩
  /-- The expression in front of the item is complete. -/
  | trailing {e : Expression} {v w : Value} : read.map Span.text = e.words → e.value = .ok v →
      bad.outcome = .ok (.number w) → StopsAt read bad ⟨.trailingInput (.number w), bad.start⟩
  /-- The last product has failed. -/
  | product {before right : List Span} {first : Span} {e e₀ : Expression} {t : Term} {f : Factor}
      {l r : Value} {cause : Cause} (op : { op : Operator // op.level = .multiplicative }) :
      read = before ++ first :: right → before.map Span.text = e₀.words ++ [op.1.text.toList] →
      (first :: right).map Span.text = f.words → e.last = t.snoc op f →
      e.words = e₀.words ++ op.1.text.toList :: f.words → e₀.Computed →
      t.value = .ok l → f.value = .ok r → op.1.apply l r = .error cause → bad.Reads →
      StopsAt read bad ⟨cause, first.start⟩
  /-- The last sum has failed. -/
  | sum {before right : List Span} {first : Span} {d : Expression} {t : Term} {l r : Value}
      {cause : Cause} {next : Token} (op : { op : Operator // op.level = .additive }) :
      read = before ++ first :: right → before.map Span.text = d.words ++ [op.1.text.toList] →
      (first :: right).map Span.text = t.words → d.value = .ok l → t.value = .ok r →
      op.1.apply l r = .error cause → bad.outcome = .ok next → next.Ends .multiplicative →
      StopsAt read bad ⟨cause, first.start⟩

/-! ## From the rules to the words -/

/-- What can stand in front of a term: nothing, or a value and the operator behind it. -/
inductive BeforeTerm (ws : List (List Char)) : Prop where
  | nothing : ws = [] → BeforeTerm ws
  | sum {d : Expression} {v : Value} (op : { op : Operator // op.level = .additive }) :
      d.value = .ok v → ws = d.words ++ [op.1.text.toList] → BeforeTerm ws

/-- With a term behind it, it is an expression that ends with that term. -/
theorem BeforeTerm.exists_expression {ws : List (List Char)} (h : BeforeTerm ws) (t : Term) :
    ∃ e : Expression, e.last = t ∧ e.words = ws ++ t.words
      ∧ ((∃ v, t.value = .ok v) → e.Computed) := by
  cases h with
  | nothing hws =>
      subst hws
      exact ⟨.single t, rfl, by simp, Expression.computed_single.mpr⟩
  | @sum d v op hd hws =>
      subst hws
      exact ⟨d.snoc op t, by simp, by simp, fun ht => Expression.computed_snoc.mpr ⟨⟨v, hd⟩, ht⟩⟩

theorem BeforeTerm.awaits {ws : List (List Char)} (h : BeforeTerm ws) (signs : List Sign) :
    Awaits (ws ++ signs.map (fun sign => sign.text.toList)) := by
  cases h with
  | nothing hws => exact .start signs (by rw [hws, List.nil_append])
  | sum op hd hws => exact .sum op signs hd (by rw [hws]; simp)

/-- A factor is stuck in the middle of an expression. -/
theorem Factor.Stuck.stopsAt {before read : List Span} {bad : Span} {e : Error}
    (hbefore : ∀ signs : List Sign,
      Awaits (before.map Span.text ++ signs.map (fun sign => sign.text.toList)))
    (h : Factor.Stuck read bad e) : StopsAt (before ++ read) bad e := by
  cases h with
  | unreadable signs hsigns hbad =>
      exact .unreadable (by rw [List.map_append, hsigns]; exact hbefore signs) hbad
  | behind f hwords hbad =>
      refine .behind (hbefore f.signs) f.numeral ?_ hbad
      rw [List.map_append, hwords, Factor.words, List.append_assoc]
  | missing signs hsigns hbad hnosign hnonumber =>
      exact .missing (by rw [List.map_append, hsigns]; exact hbefore signs) hbad hnosign hnonumber

/-- A term is stuck in the middle of an expression. -/
theorem Term.Stuck.stopsAt {before read : List Span} {bad : Span} {e : Error}
    (hbefore : BeforeTerm (before.map Span.text)) (h : Term.Stuck read bad e) :
    StopsAt (before ++ read) bad e := by
  cases h with
  | first h => exact h.stopsAt hbefore.awaits
  | @later inner read bad e l t op hinner ht h =>
      rw [← List.append_assoc]
      refine h.stopsAt fun signs => ?_
      obtain ⟨e₀, _, hwords, hcomputed⟩ := hbefore.exists_expression t
      -- what is in front of the operator is an expression, with the term as its last one
      refine .product op signs (hcomputed ⟨l, ht⟩) ?_
      rw [hwords, List.map_append, hinner]
      simp [Term.words]
  | @operation inner right first bad f l r cause next t op hinner hright ht hf happly hbad _ =>
      obtain ⟨e₀, _, hwords₀, hcomputed⟩ := hbefore.exists_expression t
      obtain ⟨e, hlast, hwords, _⟩ := hbefore.exists_expression (t.snoc op f)
      refine .product op (List.append_assoc ..).symm ?_ hright hlast ?_ (hcomputed ⟨l, ht⟩) ht hf
        happly ⟨next, hbad⟩
      · rw [hwords₀, List.map_append, hinner]
        simp [Term.words]
      · rw [hwords, hwords₀]
        simp

theorem Expression.Stuck.stopsAt {read : List Span} {bad : Span} {e : Error}
    (h : Expression.Stuck read bad e) : StopsAt read bad e := by
  cases h with
  | first h => exact (h.stopsAt (.nothing rfl) : StopsAt ([] ++ read) bad e)
  | later d op hbefore hd h => exact h.stopsAt (.sum op hd hbefore)
  | operation d op hbefore hright hd ht happly hbad hfollow =>
      exact .sum op rfl hbefore hright hd ht happly hbad hfollow.2

/-! ## The evaluation as a whole -/

/-- How the evaluation of a source can end. -/
inductive EndsWith (source : String) : Except Error Value → Prop where
  | value {e : Expression} {v : Value} : (spans source).map Span.text = e.words →
      e.value = .ok v → (∀ sp ∈ spans source, sp.Reads) → EndsWith source (.ok v)
  | error {read rest : List Span} {bad : Span} {e : Error} :
      items source = read ++ bad :: rest → (∀ sp ∈ read, sp.Reads) → StopsAt read bad e →
      EndsWith source (.error e)

/-- A token behind which neither a factor nor a term goes on, and that is not the end. -/
theorem number_of_follow {t : Token} (h : Expression.Follow t) (hend : t ≠ .endOfInput) :
    ∃ v, t = .number v := by
  obtain ⟨⟨_, hmul⟩, hadd⟩ := h
  cases t with
  | number v => exact ⟨v, rfl⟩
  | plus => exact absurd rfl (hadd .add rfl)
  | minus => exact absurd rfl (hadd .sub rfl)
  | star => exact absurd rfl (hmul .mul rfl)
  | slash => exact absurd rfl (hmul .div rfl)
  | endOfInput => exact absurd rfl hend

/-- **How the evaluation of a source ends.** -/
theorem ends_evaluate (source : String) : EndsWith source (evaluate source) := by
  unfold evaluate
  split
  · rename_i r hr
    obtain ⟨hfaithful, hitems⟩ := Reader.ofSource_ok hr
    unfold Reader.whole
    split
    · rename_i e r' hrun
      obtain ⟨read, bad, hhalts, hstuck⟩ := Rule.reads_expression.error hfaithful hrun
      obtain ⟨rest, hrest, _⟩ := hhalts.items_eq
      exact .error (by rw [← hitems, hrest]) hhalts.reads hstuck.stopsAt
    · rename_i v r' hrun
      obtain ⟨read, e, hread, hwords, hv, hfollow⟩ := Rule.reads_expression.ok hfaithful hrun
      split
      · rename_i hend
        -- only the end of input is left, so all the spans have been read
        have hsplit : spans source ++ [⟨source.utf8ByteSize, []⟩] = read ++ [r'.span] := by
          rw [← items_eq, ← hitems, hread.items_eq, Reader.items, if_pos hend]
        obtain ⟨rfl, _⟩ := List.append_inj' hsplit rfl
        exact .value hwords hv hread.reads
      · rename_i hend
        obtain ⟨w, hw⟩ := number_of_follow hfollow hend
        rw [hw]
        refine .error (by rw [← hitems, hread.items_eq, Reader.items]) hread.reads
          (.trailing hwords hv ?_)
        rw [← hw]
        exact Span.outcome_eq_ok_iff.mpr hread.faithful.reading
  · rename_i e he
    obtain ⟨bad, rest, hitems, hbad⟩ := Reader.ofSource_error he
    exact .error (hitems.trans (List.nil_append _).symm) (by simp)
      (.unreadable (.start [] rfl) hbad)

end Calculator
