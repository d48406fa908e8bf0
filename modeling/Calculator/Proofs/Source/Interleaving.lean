import Calculator.Proofs.Source.Concat
import Calculator.Proofs.Source.Tiling

/-!
# The two ways of asking a cursor, mixed

A cursor can be asked with `read` and with `next?`, one token at a time, or with `collect` for
all that `next?` still gives. Only `next?` remembers that it has come to an end, and `read`
does not care. So what happens depends on the order: `read` may come to the end of input first,
or go on behind an error at which `next?` has ended.

Still **no order loses a token, and none repeats one**. A call *advances* if it is a `read`, or
a `next?` in front of which no `next?` has come to its end. The advancing calls go through the
tokens and errors of the source in turn, whichever kind each of them is, and the others leave
the cursor as it is. The proof takes `collect` apart into the calls of `next?` that it makes, so
that there is one kind of history: a list of single calls, with the cursor behind each.
-/

namespace Calculator.Cursor

/-! ## Histories -/

/-- What can be done with a cursor. -/
inductive Step where
  | read
  | next
  | collect

/-- What came back from one call, and from which kind of call. -/
inductive Reply where
  | read (outcome : Except Error Token)
  | next (given : Option (Except Error Token))
deriving DecidableEq

namespace Reply

/-- The call is one of `next?`, and it came to the end or to an error, or had done so before. -/
def ends : Reply → Bool
  | next none => true
  | next (some (.error _)) => true
  | _ => false

/-- The call goes on in the source, where the calls `before` were made in front of it. -/
def advances (before : List Reply) : Reply → Bool
  | read _ => true
  | next _ => !before.any ends

/-- What a call of `next?` has given. -/
def given? : Reply → Option (Except Error Token)
  | read _ => none
  | next given => given

end Reply

/-- What is given for an outcome that `next?` comes to: the end of input is not given. -/
def inFrontOfEnd : Except Error Token → Option (Except Error Token)
  | .ok .endOfInput => none
  | outcome => some outcome

/-- The reply is what a call that comes to `outcome` gives. -/
def Reply.Sees (outcome : Except Error Token) : Reply → Prop
  | read seen => seen = outcome
  | next given => given = inFrontOfEnd outcome

/-- How many of the calls `replies`, made behind the calls `before`, advance. -/
def advancingFrom (before : List Reply) : List Reply → Nat
  | [] => 0
  | reply :: rest =>
    (if reply.advances before then 1 else 0) + advancingFrom (before ++ [reply]) rest

/-- How many of the calls advance. -/
def advancing (replies : List Reply) : Nat := advancingFrom [] replies

/-- The calls of `next?` until it gives nothing, each with the cursor that it leaves. -/
def nexts (c : Cursor) : List (Reply × Cursor) :=
  match _ : c.next? with
  | (none, c') => [(.next none, c')]
  | (some outcome, c') => (.next (some outcome), c') :: nexts c'
termination_by c.left
decreasing_by exact left_next?_lt ‹_›

/-- The cursor that a step leaves. -/
def after (c : Cursor) : Step → Cursor
  | .read => c.read.2
  | .next => c.next?.2
  | .collect => c.collect.2

/-- The calls of a step, each with the cursor that it leaves. -/
def calls (c : Cursor) : Step → List (Reply × Cursor)
  | .read => [(.read c.read.1, c.read.2)]
  | .next => [(.next c.next?.1, c.next?.2)]
  | .collect => c.nexts

/-- The cursor that the steps leave. -/
def afterSteps (c : Cursor) (steps : List Step) : Cursor := steps.foldl after c

/-- All the calls of the steps, each with the cursor that it leaves. -/
def history (c : Cursor) : List Step → List (Reply × Cursor)
  | [] => []
  | step :: steps => c.calls step ++ (c.after step).history steps

/-- The replies alone. -/
def replies (made : List (Reply × Cursor)) : List Reply := made.map Prod.fst

/-- The cursor behind the calls. -/
def behind (c : Cursor) (made : List (Reply × Cursor)) : Cursor :=
  (made.getLast?.map Prod.snd).getD c

/--
From the read with number `first` on there are `n` tokens, and then the source ends or cannot be
read.
-/
structure TokensUpTo (source : String) (first n : Nat) : Prop where
  tokens : ∀ i < n, ∃ t, outcomeAt source (first + i) = .ok t ∧ t ≠ .endOfInput
  last : outcomeAt source (first + n) = .ok .endOfInput
    ∨ ∃ e, outcomeAt source (first + n) = .error e

/-- The outcomes of these tokens, and behind them the error, if it is one. -/
def collected (source : String) (first n : Nat) : List (Except Error Token) :=
  (List.range' first n).map (outcomeAt source)
    ++ (inFrontOfEnd (outcomeAt source (first + n))).toList

/-- Collecting from `c` behind the calls `before`. -/
structure Collects (source : String) (before : List Reply) (c : Cursor) : Prop where
  /-- What is collected is what the calls of `next?` give, and their last cursor is left. -/
  collect_eq : c.collect = ((replies c.nexts).filterMap Reply.given?, c.behind c.nexts)
  /-- Where `next?` has come to its end this is nothing, and else all up to the first stop. -/
  gives : if before.any Reply.ends then c.collect = ([], c)
    else ∃ n, TokensUpTo source (advancing before) n
      ∧ c.collect.1 = collected source (advancing before) n

/-! ## Counting -/

theorem advancingFrom_concat (before replies : List Reply) (reply : Reply) :
    advancingFrom before (replies ++ [reply])
      = advancingFrom before replies
        + if reply.advances (before ++ replies) then 1 else 0 := by
  induction replies generalizing before with
  | nil => simp [advancingFrom]
  | cons first replies ih =>
      rw [List.cons_append, advancingFrom, ih, advancingFrom, List.append_assoc,
        List.singleton_append, Nat.add_assoc]

theorem advancing_concat (replies : List Reply) (reply : Reply) :
    advancing (replies ++ [reply])
      = advancing replies + if reply.advances replies then 1 else 0 :=
  advancingFrom_concat [] replies reply

theorem replies_concat (made : List (Reply × Cursor)) (reply : Reply) (c : Cursor) :
    replies (made ++ [(reply, c)]) = replies made ++ [reply] := by
  simp [replies]

theorem behind_concat (c : Cursor) (made : List (Reply × Cursor)) (entry : Reply × Cursor) :
    c.behind (made ++ [entry]) = entry.2 := by
  simp [behind]

theorem behind_cons (c : Cursor) (entry : Reply × Cursor) (made : List (Reply × Cursor)) :
    c.behind (entry :: made) = entry.2.behind made := by
  rw [behind, behind, List.getLast?_cons]
  cases made.getLast? <;> rfl

/-- An entry of a history is its last one, or it is in the history in front of that. -/
theorem eq_last_or_of_concat_eq {α : Type} {made before rest : List α} {last entry : α}
    (h : made ++ [last] = before ++ entry :: rest) :
    (made = before ∧ last = entry) ∨ ∃ rest, made = before ++ entry :: rest := by
  rcases List.eq_nil_or_concat rest with rfl | ⟨rest, _, rfl⟩
  · obtain ⟨hmade, hlast⟩ := List.append_inj' h rfl
    exact .inl ⟨hmade, List.singleton_inj.mp hlast⟩
  · rw [List.concat_eq_append, ← List.cons_append, ← List.append_assoc] at h
    exact .inr ⟨rest, (List.append_inj' h rfl).1⟩

/-! ## What one call does -/

/-- A read does not care whether `next?` has come to its end. -/
theorem read_with_exhausted (c : Cursor) (ended : Bool) :
    read { c with exhausted := ended } = (c.read.1, { c.read.2 with exhausted := ended }) := by
  unfold read
  dsimp only
  split <;> rfl

/-- The cursor behind `n` reads of the source, except that `next?` may have come to its end. -/
def standing (source : String) (n : Nat) (ended : Bool) : Cursor :=
  { (ofSource source).afterReads n with exhausted := ended }

theorem read_standing (source : String) (n : Nat) (ended : Bool) :
    (standing source n ended).read = (outcomeAt source n, standing source (n + 1) ended) :=
  read_with_exhausted _ _

theorem next?_standing_true (source : String) (n : Nat) :
    (standing source n true).next? = (none, standing source n true) := if_pos rfl

/-- While it has not come to its end, `next?` comes to what a read comes to. -/
theorem next?_standing_false (source : String) (n : Nat) :
    (standing source n false).next?
      = (inFrontOfEnd (outcomeAt source n),
          standing source (n + 1) (Reply.next (inFrontOfEnd (outcomeAt source n))).ends) := by
  rw [next?, if_neg (by exact Bool.false_ne_true), read_standing]
  cases outcomeAt source n with
  | error e => rfl
  | ok t => cases t <;> rfl

theorem span_standing (source : String) (n : Nat) (ended : Bool) :
    (standing source (n + 1) ended).span = spanAt source n := rfl

/-- What one call does behind the calls `before`, which have left `c`. -/
structure Follows (source : String) (before : List Reply) (c : Cursor)
    (reply : Reply) (c' : Cursor) : Prop where
  /-- The call with number `i` that advances comes to the outcome with number `i`, -/
  sees : reply.advances before → reply.Sees (outcomeAt source (advancing before))
  /-- and leaves the span that this outcome leaves. -/
  span_eq : reply.advances before → c'.span = spanAt source (advancing before)
  /-- Any other gives nothing and changes nothing. -/
  rests : reply.advances before = false → reply = .next none ∧ c' = c

/-- **The history says where the cursor stands.** -/
def StandsBehind (source : String) (before : List Reply) (c : Cursor) : Prop :=
  c = standing source (advancing before) (before.any Reply.ends)

/-- One call on the cursor, with the cursor that it leaves. -/
inductive Asks (c : Cursor) : Reply → Cursor → Prop where
  | read : Asks c (.read c.read.1) c.read.2
  | next : Asks c (.next c.next?.1) c.next?.2

/-- **One call goes on in the source**, or it gives nothing and changes nothing. -/
theorem StandsBehind.asks {source : String} {before : List Reply} {c c' : Cursor} {reply : Reply}
    (h : StandsBehind source before c) (hasks : c.Asks reply c') :
    Follows source before c reply c' ∧ StandsBehind source (before ++ [reply]) c' := by
  cases hasks with
  | read =>
      have hread := read_standing source (advancing before) (before.any Reply.ends)
      rw [← h] at hread
      refine ⟨⟨fun _ => (congrArg Prod.fst hread :), fun _ => ?_, nofun⟩, ?_⟩
      · rw [hread, span_standing]
      · rw [StandsBehind, advancing_concat, List.any_append, hread]
        simp [Reply.advances, Reply.ends]
  | next =>
      -- whether it advances is whether one of the calls before has come to the end
      cases hended : before.any Reply.ends with
      | true =>
          have hnext := next?_standing_true source (advancing before)
          rw [StandsBehind, hended] at h
          rw [← h] at hnext
          refine ⟨⟨?_, ?_, fun _ => ?_⟩, ?_⟩
          · simp [Reply.advances, hended]
          · simp [Reply.advances, hended]
          · rw [hnext]
            exact ⟨rfl, rfl⟩
          · rw [StandsBehind, advancing_concat, List.any_append, hnext, hended]
            simpa [Reply.advances, hended] using h
      | false =>
          have hnext := next?_standing_false source (advancing before)
          rw [StandsBehind, hended] at h
          rw [← h] at hnext
          refine ⟨⟨fun _ => congrArg Prod.fst hnext, fun _ => ?_, ?_⟩, ?_⟩
          · rw [hnext, span_standing]
          · simp [Reply.advances, hended]
          · rw [StandsBehind, advancing_concat, List.any_append, hnext, hended]
            simp [Reply.advances, hended]

/-! ## What all calls do -/

/-- These single calls were made on the source, and they have left `c`. -/
inductive Made (source : String) : List (Reply × Cursor) → Cursor → Prop where
  | start : Made source [] (ofSource source)
  | call {made : List (Reply × Cursor)} {c c' : Cursor} {reply : Reply} :
      Made source made c → c.Asks reply c' → Made source (made ++ [(reply, c')]) c'

section

variable {source : String} {made : List (Reply × Cursor)} {c : Cursor}

theorem Made.standsBehind (h : Made source made c) : StandsBehind source (replies made) c := by
  induction h with
  | start => rfl
  | call _ hasks ih => exact replies_concat _ _ _ ▸ (ih.asks hasks).2

theorem Made.behind_eq (h : Made source made c) : (ofSource source).behind made = c := by
  cases h with
  | start => rfl
  | call _ _ => exact behind_concat _ _ _

/-- Every call follows the calls in front of it. -/
theorem Made.follows (h : Made source made c) {before rest : List (Reply × Cursor)}
    {reply : Reply} {c' : Cursor} (hmade : made = before ++ (reply, c') :: rest) :
    Follows source (replies before) ((ofSource source).behind before) reply c' := by
  induction h generalizing rest with
  | start => exact absurd hmade (by simp)
  | call hc hasks ih =>
      rcases eq_last_or_of_concat_eq hmade with ⟨rfl, heq⟩ | ⟨rest, hmade⟩
      · cases heq
        exact hc.behind_eq ▸ (hc.standsBehind.asks hasks).1
      · exact ih hmade

/-! ## Collecting, call by call -/

theorem nexts_of_none {c' : Cursor} (h : c.next? = (none, c')) : c.nexts = [(.next none, c')] := by
  rw [nexts]
  split <;> rename_i h' <;> rw [h] at h' <;> cases h'
  rfl

theorem nexts_of_some {c' : Cursor} {outcome : Except Error Token}
    (h : c.next? = (some outcome, c')) :
    c.nexts = (.next (some outcome), c') :: c'.nexts := by
  rw [nexts]
  split <;> rename_i h' <;> rw [h] at h' <;> cases h'
  rfl

/-- **Collecting is calling `next?`** until it gives nothing. -/
theorem givenFrom_eq_nexts (given : List (Except Error Token)) (c : Cursor) :
    c.givenFrom given
      = (((replies c.nexts).filterMap Reply.given?).reverse ++ given, c.behind c.nexts) := by
  induction c using nexts.induct generalizing given with
  | case1 c c' h => rw [givenFrom_eq, nexts_of_none h, h]; rfl
  | case2 c outcome c' h ih =>
      rw [givenFrom_eq, nexts_of_some h, h]
      dsimp only
      rw [ih]
      simp [replies, Reply.given?, behind_cons]

theorem collect_eq_nexts (c : Cursor) :
    c.collect = ((replies c.nexts).filterMap Reply.given?, c.behind c.nexts) := by
  rw [collect, givenFrom_eq_nexts]
  simp

theorem Made.nexts (h : Made source made c) : Made source (made ++ c.nexts) (c.behind c.nexts) := by
  induction c using nexts.induct generalizing made with
  | case1 c c' hnext =>
      have hmade := h.call .next
      rw [hnext] at hmade
      rw [nexts_of_none hnext]
      exact hmade
  | case2 c outcome c' hnext ih =>
      have hmade := h.call .next
      rw [hnext] at hmade
      rw [nexts_of_some hnext, behind_cons, ← List.singleton_append, ← List.append_assoc]
      exact ih hmade

theorem Made.calls (h : Made source made c) (step : Step) :
    Made source (made ++ c.calls step) (c.after step) := by
  cases step with
  | read => exact h.call .read
  | next => exact h.call .next
  | collect =>
      have hcollect : c.collect.2 = c.behind c.nexts := by rw [collect_eq_nexts]
      rw [after, hcollect]
      exact h.nexts

/-- **All single calls of all steps** have been made. -/
theorem Made.history (h : Made source made c) (steps : List Step) :
    Made source (made ++ c.history steps) (c.afterSteps steps) := by
  induction steps generalizing made c with
  | nil => exact (List.append_nil made).symm ▸ h
  | cons step steps ih =>
      rw [Cursor.history, ← List.append_assoc]
      exact ih (h.calls step)

end

theorem made_history (source : String) (steps : List Step) :
    Made source ((ofSource source).history steps) ((ofSource source).afterSteps steps) :=
  Made.start.history steps

/-! ## What is collected -/

theorem TokensUpTo.cons {source : String} {first n : Nat} {t : Token}
    (ht : outcomeAt source first = .ok t) (hne : t ≠ .endOfInput)
    (h : TokensUpTo source (first + 1) n) : TokensUpTo source first (n + 1) where
  tokens
    | 0, _ => ⟨t, ht, hne⟩
    | i + 1, hi => by
        rw [← Nat.add_assoc, Nat.add_right_comm]
        exact h.tokens i (Nat.lt_of_succ_lt_succ hi)
  last := by
    rw [← Nat.add_assoc, Nat.add_right_comm]
    exact h.last

theorem collected_zero {source : String} {first : Nat} :
    collected source first 0 = (inFrontOfEnd (outcomeAt source first)).toList := rfl

theorem collected_succ {source : String} {first n : Nat} :
    collected source first (n + 1) = outcomeAt source first :: collected source (first + 1) n := by
  rw [collected, collected, List.range'_succ, List.map_cons, List.cons_append,
    Nat.add_right_comm, Nat.add_assoc]

theorem givenFrom_standing_true (source : String) (n : Nat) (given : List (Except Error Token)) :
    (standing source n true).givenFrom given = (given, standing source n true) := by
  rw [givenFrom_eq, next?_standing_true]

theorem inFrontOfEnd_ok {t : Token} (h : t ≠ .endOfInput) :
    inFrontOfEnd (.ok t) = some (.ok t) := by
  cases t <;> first | rfl | exact absurd rfl h

/-- **While `next?` has not come to its end, all tokens up to the first stop are collected.** -/
theorem exists_givenFrom_standing (source : String) (first : Nat) :
    ∃ n, TokensUpTo source first n ∧ ∀ given,
      ((standing source first false).givenFrom given).1
        = (collected source first n).reverse ++ given := by
  induction hleft : (standing source first false).left using Nat.strong_induction_on
    generalizing first with
  | _ left ih =>
    have hnext := next?_standing_false source first
    rcases hout : outcomeAt source first with e | t
    · rw [hout] at hnext
      refine ⟨0, ⟨nofun, .inr ⟨e, hout⟩⟩, fun given => ?_⟩
      rw [givenFrom_eq, hnext]
      refine (congrArg Prod.fst (givenFrom_standing_true source (first + 1) _)).trans ?_
      rw [collected_zero, hout]
      rfl
    · by_cases hend : t = .endOfInput
      · subst hend
        rw [hout] at hnext
        refine ⟨0, ⟨nofun, .inl hout⟩, fun given => ?_⟩
        rw [givenFrom_eq, hnext, collected_zero, hout]
        rfl
      · -- `next?` goes on, and can do so once less often
        rw [hout, inFrontOfEnd_ok hend] at hnext
        obtain ⟨n, htokens, hgiven⟩ := ih _ (hleft ▸ left_next?_lt hnext) (first + 1) rfl
        refine ⟨n + 1, htokens.cons hout hend, fun given => ?_⟩
        rw [givenFrom_eq, hnext, collected_succ, hout, List.reverse_cons, List.append_assoc]
        exact hgiven _

theorem exists_collect_standing (source : String) (first : Nat) :
    ∃ n, TokensUpTo source first n
      ∧ (standing source first false).collect.1 = collected source first n := by
  obtain ⟨n, htokens, hgiven⟩ := exists_givenFrom_standing source first
  refine ⟨n, htokens, ?_⟩
  rw [collect]
  dsimp only
  rw [hgiven, List.append_nil, List.reverse_reverse]

theorem StandsBehind.collects {source : String} {before : List Reply} {c : Cursor}
    (h : StandsBehind source before c) : Collects source before c := by
  refine ⟨collect_eq_nexts c, ?_⟩
  rw [StandsBehind] at h
  split
  · rename_i hended
    rw [hended] at h
    rw [h, Cursor.collect, givenFrom_standing_true]
    rfl
  · rename_i hended
    rw [Bool.eq_false_iff.mpr hended] at h
    rw [h]
    exact exists_collect_standing source _

/-! ## All tokens of a source -/

theorem mapM_id_ok (tokens : List Token) :
    (tokens.map Except.ok).mapM id = (.ok tokens : Except Error (List Token)) := by
  rw [List.mapM_map]
  exact List.mapM_pure.trans (congrArg Except.ok (List.map_id tokens))

theorem mapM_id_error (tokens : List Token) (e : Error) :
    (tokens.map Except.ok ++ [Except.error e]).mapM id
      = (.error e : Except Error (List Token)) := by
  rw [List.mapM_append, mapM_id_ok]
  rfl

theorem exists_map_ok {source : String} {first n : Nat}
    (h : ∀ i < n, ∃ t, outcomeAt source (first + i) = .ok t ∧ t ≠ .endOfInput) :
    ∃ tokens : List Token, (List.range' first n).map (outcomeAt source) = tokens.map .ok := by
  induction n with
  | zero => exact ⟨[], rfl⟩
  | succ n ih =>
      obtain ⟨tokens, hmap⟩ := ih fun i hi => h i (Nat.lt_succ_of_lt hi)
      obtain ⟨t, ht, -⟩ := h n (Nat.lt_succ_self n)
      refine ⟨tokens ++ [t], ?_⟩
      rw [List.range'_1_concat, List.map_append, List.map_append, hmap, List.map_singleton, ht]
      rfl

/-- **The tokens of a source** are the outcomes in front of the first stop. -/
theorem exists_tokenize_eq (source : String) :
    ∃ n, TokensUpTo source 0 n
      ∧ match outcomeAt source n with
        | .ok _ => ∃ tokens, (List.range n).map (outcomeAt source) = tokens.map .ok
            ∧ tokenize source = .ok tokens
        | .error e => tokenize source = .error e := by
  obtain ⟨n, htokens, hcollect⟩ := exists_collect_standing source 0
  obtain ⟨tokens, hmap⟩ := exists_map_ok htokens.tokens
  have htokenize : tokenize source = (collected source 0 n).mapM id :=
    (tokenize_eq_collect source).trans (congrArg _ hcollect)
  refine ⟨n, htokens, ?_⟩
  rw [collected, hmap, Nat.zero_add] at htokenize
  have hlast := htokens.last
  rw [Nat.zero_add] at hlast
  rcases hlast with hend | ⟨e, he⟩
  · rw [hend] at htokenize ⊢
    refine ⟨tokens, List.range_eq_range' ▸ hmap, ?_⟩
    rw [htokenize]
    exact (congrArg _ (List.append_nil _)).trans (mapM_id_ok tokens)
  · rw [he] at htokenize ⊢
    rw [htokenize]
    exact mapM_id_error tokens e

/-! ## Any order -/

/--
**No order of the steps loses or repeats anything.** Of all single calls, those inside a
collection included, the one with number `i` that advances comes to the outcome with number `i`
of the source, shows it as its kind of call does, and leaves its span; every other gives nothing
and leaves the cursor as it was. Whenever one collects, one gets the outcomes up to the first end
of input, or with the first error. So the tokens of a source are those in front of its end, or
else its first error is what there is.
-/
theorem steps_lose_nothing (source : String) :
    (∀ steps : List Step,
      (∀ before reply c rest,
        (ofSource source).history steps = before ++ (reply, c) :: rest →
        if reply.advances (replies before) then
          reply.Sees (outcomeAt source (advancing (replies before)))
            ∧ c.span = spanAt source (advancing (replies before))
            ∧ c.position = (spanAt source (advancing (replies before))).stop
        else reply = .next none ∧ c = (ofSource source).behind before)
      ∧ (ofSource source).behind ((ofSource source).history steps)
        = (ofSource source).afterSteps steps
      ∧ Collects source (replies ((ofSource source).history steps))
        ((ofSource source).afterSteps steps))
    ∧ ∃ n, TokensUpTo source 0 n
      ∧ match outcomeAt source n with
        | .ok _ => ∃ tokens, (List.range n).map (outcomeAt source) = tokens.map .ok
            ∧ tokenize source = .ok tokens
        | .error e => tokenize source = .error e := by
  refine ⟨fun steps => ?_, exists_tokenize_eq source⟩
  have h := made_history source steps
  refine ⟨fun before reply c rest hmade => ?_, h.behind_eq, h.standsBehind.collects⟩
  have hfollows := h.follows hmade
  split
  · rename_i hadvances
    have hspan := hfollows.span_eq hadvances
    exact ⟨hfollows.sees hadvances, hspan, congrArg Span.stop hspan⟩
  · rename_i hadvances
    exact hfollows.rests (Bool.eq_false_iff.mpr hadvances)

/-- Behind its error `next?` gives nothing more, and still a `read` comes to what follows. -/
example : replies ((ofSource "1?+").history [.next, .next, .next, .read, .read, .next])
    = [.next (some (.ok (.number (.integer 1)))), .next (some (.error ⟨.invalidCharacter '?', 1⟩)),
        .next none, .read (.ok .plus), .read (.ok .endOfInput), .next none] := by
  decide +kernel

end Calculator.Cursor
