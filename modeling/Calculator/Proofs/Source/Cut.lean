import Mathlib.Data.List.Induction
import Calculator.Proofs.Source.Lexeme

/-!
# Cutting a source at a span

The spans of a source are found from left to right, and where one begins, nothing that
was read before matters any more. So a source can be cut in front of any of its spans:
**the spans of the front are those before it, and the rest has the others**. That the
cut is at a character boundary and at the right byte is part of the statement, since
the front is a list of characters whose size is the start of the span.

A run of digits is cut out whole: no digit stands next to it on either side.
-/

namespace Calculator

/-- The digits are all that stand together between `front` and `back`. -/
structure MaximalRun (front digits back : List Char) : Prop where
  numeral : Numeral digits
  before : ∀ c ∈ front.getLast?, c.isDigit = false
  after : ∀ c ∈ back.head?, c.isDigit = false

/-- What is left in front of a cut ends as it did, unless all of it is gone. -/
theorem getLast?_cons_isDigit {c : Char} {front : List Char} (hc : c.isDigit = false)
    (h : ∀ d ∈ front.getLast?, d.isDigit = false) :
    ∀ d ∈ (c :: front).getLast?, d.isDigit = false := by
  intro d hd
  rw [List.getLast?_cons, Option.mem_def, Option.some.injEq] at hd
  cases hl : front.getLast? with
  | none => rw [hl] at hd; exact hd ▸ hc
  | some e => rw [hl] at hd; exact h d (by rw [hl]; exact congrArg some hd)

/-- **A source can be cut in front of and behind each of its spans.** -/
theorem spansFrom_cut {start : Nat} {chars : List Char} {before after : List Span} {sp : Span}
    (h : spansFrom start chars = before ++ sp :: after) :
    ∃ front back : List Char, chars = front ++ (sp.text ++ back)
      ∧ sp.start = start + byteSize front
      ∧ spansFrom start front = before
      ∧ spansFrom sp.start (sp.text ++ back) = sp :: after
      ∧ (Numeral sp.text → MaximalRun front sp.text back) := by
  induction chars using chars_induction generalizing start before with
  | nil => simp at h
  | blank c rest hb ih =>
      rw [spansFrom_blank hb] at h
      obtain ⟨front, back, hchars, hstart, hfront, hback, hrun⟩ := ih h
      refine ⟨c :: front, back, by rw [hchars, List.cons_append], ?_, ?_, hback, ?_⟩
      · rw [hstart, byteSize_cons, Nat.add_assoc]
      · rw [spansFrom_blank hb, hfront]
      · intro hd
        obtain ⟨hnum, hbefore, hafter⟩ := hrun hd
        exact ⟨hnum, getLast?_cons_isDigit (isDigit_eq_false_of_isBlank hb) hbefore, hafter⟩
  | run digits rest hd hrest ih =>
      rw [spansFrom_run hd hrest] at h
      cases before with
      | nil =>
          obtain ⟨rfl, rfl⟩ := List.cons.inj h
          exact ⟨[], rest, rfl, rfl, spansFrom_nil _, spansFrom_run hd hrest start,
            fun _ => ⟨hd, by simp, hrest⟩⟩
      | cons first before =>
          obtain ⟨rfl, htail⟩ := List.cons.inj h
          obtain ⟨front, back, hchars, hstart, hfront, hback, hrun⟩ := ih htail
          -- the run stays maximal in the front
          have hhead : ∀ c ∈ front.head?, c.isDigit = false := by
            cases front with
            | nil => simp
            | cons c front => exact fun d hd => hrest d (by rw [hchars]; exact hd)
          refine ⟨digits ++ front, back, by rw [hchars, List.append_assoc], ?_, ?_, hback, ?_⟩
          · rw [hstart, byteSize_append, Nat.add_assoc]
          · rw [spansFrom_run hd hhead, hfront]
          · intro hnum
            obtain ⟨_, hbefore, hafter⟩ := hrun hnum
            refine ⟨hnum, ?_, hafter⟩
            cases front with
            | nil =>
                -- two runs of digits cannot touch
                cases htext : sp.text with
                | nil => exact absurd htext hnum.ne_nil
                | cons d text =>
                    have hdigit := hnum.isDigit d (by rw [htext]; exact List.mem_cons_self)
                    have hno := hrest d (by rw [hchars, htext]; rfl)
                    rw [hdigit] at hno
                    cases hno
            | cons c front =>
                intro d hlast
                rw [List.getLast?_append, List.getLast?_eq_some_getLast (by simp)] at hlast
                exact hbefore d (by rw [List.getLast?_eq_some_getLast (by simp)]; exact hlast)
  | other c rest hb hd ih =>
      rw [spansFrom_other hb hd] at h
      cases before with
      | nil =>
          obtain ⟨rfl, rfl⟩ := List.cons.inj h
          refine ⟨[], rest, rfl, rfl, spansFrom_nil _, spansFrom_other hb hd start rest,
            fun hnum => ?_⟩
          have hdigit := hnum.isDigit c List.mem_cons_self
          rw [hd] at hdigit
          cases hdigit
      | cons first before =>
          obtain ⟨rfl, htail⟩ := List.cons.inj h
          obtain ⟨front, back, hchars, hstart, hfront, hback, hrun⟩ := ih htail
          refine ⟨c :: front, back, by rw [hchars, List.cons_append], ?_, ?_, hback, ?_⟩
          · rw [hstart, byteSize_cons, Nat.add_assoc]
          · rw [spansFrom_other hb hd, hfront]
          · intro hnum
            obtain ⟨_, hbefore, hafter⟩ := hrun hnum
            exact ⟨hnum, getLast?_cons_isDigit hd hbefore, hafter⟩

/-- The source falls into `front` and `back` where the item `sp` starts. -/
structure CutAt (source : String) (before : List Span) (sp : Span) (after : List Span)
    (front back : String) : Prop where
  source_eq : source = front ++ back
  start_eq : front.utf8ByteSize = sp.start
  before_eq : spans front = before
  items_eq : spansFrom sp.start back.toList ++ [⟨source.utf8ByteSize, []⟩] = sp :: after
  text_eq : ∃ rest, back.toList = sp.text ++ rest
    ∧ (Numeral sp.text → MaximalRun front.toList sp.text rest)
  /-- At the end of input nothing is left. -/
  eq_empty : sp.text = [] → back = ""

/-- **A source can be cut in front of each of its spans and at its end.** -/
theorem exists_cutAt {source : String} {before after : List Span} {sp : Span}
    (h : spans source ++ [⟨source.utf8ByteSize, []⟩] = before ++ sp :: after) :
    ∃ front back, CutAt source before sp after front back := by
  cases after using List.reverseRecOn with
  | nil =>
      -- the cut is at the end
      obtain ⟨hbefore, hend⟩ := List.append_inj' h rfl
      obtain ⟨rfl, _⟩ := List.cons.inj hend
      refine ⟨source, "", by simp, rfl, hbefore, by simp, ⟨[], by simp, ?_⟩, fun _ => rfl⟩
      exact fun hnum => absurd rfl hnum.ne_nil
  | append_singleton after last =>
      rw [← List.cons_append, ← List.append_assoc] at h
      obtain ⟨hspans, hend⟩ := List.append_inj' h rfl
      obtain ⟨front, back, hchars, hstart, hfront, hback, hrun⟩ := spansFrom_cut hspans
      refine ⟨String.ofList front, String.ofList (sp.text ++ back), ?_, ?_, ?_, ?_, ⟨back, ?_⟩, ?_⟩
      · rw [← String.ofList_append, ← hchars, String.ofList_toList]
      · rw [← byteSize_toList, String.toList_ofList, hstart, Nat.zero_add]
      · rw [spans, String.toList_ofList, hfront]
      · rw [String.toList_ofList, hback, hend, List.cons_append]
      · rw [String.toList_ofList, String.toList_ofList]
        exact ⟨rfl, hrun⟩
      · intro htext
        have hmem : sp ∈ spans source := by
          rw [hspans]
          simp
        exact absurd htext (lexeme_of_mem_spans hmem).ne_nil

end Calculator
