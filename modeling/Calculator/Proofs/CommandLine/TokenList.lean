import Calculator.Proofs.CommandLine.Agreement
import Calculator.Proofs.Source.Writing

/-!
# Token lists typed in again

`--tokens` writes one token a line, an operator in quotes and a number behind the word
`number`. No token has a newline in it, so the lines can be told apart, and without the
quotes and the word each of them is the token as it stands in a source. **Typed in again, the
lines give the same tokens**, and so the list says which tokens a source has, no more and no
less.
-/

namespace Calculator

open Binary64

/-! ## The list -/

/-- The list of the tokens, one a line. -/
def tokenList (ts : List Token) : String := String.join (ts.map fun t => t.text ++ "\n")

/-- The lines of a text in which each line is ended by a newline. -/
def linesOf (text : String) : List (List Char) := (text.toList.splitOn '\n').dropLast

/-- What is left of a line of the list without the word `number`, or else without the quotes. -/
def unquoted (line : List Char) : List Char :=
  if "number ".toList.isPrefixOf line then line.drop "number ".toList.length
  else line.tail.dropLast

/-- The lines of the list as one line that can be typed in. -/
def retyped (list : String) : String :=
  String.ofList ([' '].intercalate ((linesOf list).map unquoted))

/-- The report is that of a run which asks for the tokens of the source. -/
def Report.Lists (source : String) (r : Report) : Prop :=
  ∃ arguments input, Request.ofArguments arguments = .run .tokens (some source)
    ∧ r = ofRun arguments input

theorem Report.Lists.eq_ofExpression {source : String} {r : Report} (h : r.Lists source) :
    r = ofExpression .tokens source := by
  obtain ⟨arguments, input, hrequest, rfl⟩ := h
  rw [ofRun, hrequest]

/-! ## Its lines -/

theorem toList_tokenList (ts : List Token) :
    (tokenList ts).toList = ['\n'].intercalate (ts.map (fun t => t.text.toList) ++ [[]]) := by
  unfold tokenList
  induction ts with
  | nil => rfl
  | cons t ts ih =>
      rw [List.map_cons, String.join_cons, String.toList_append, ih, List.map_cons,
        List.cons_append, List.intercalate_cons_of_ne_nil (by simp), String.toList_append]
      rfl

/-- **The lines of the list are the texts of the tokens.** -/
theorem linesOf_tokenList (ts : List Token) :
    linesOf (tokenList ts) = ts.map fun t => t.text.toList := by
  have hlines : ∀ line ∈ ts.map (fun t => t.text.toList) ++ [[]], '\n' ∉ line := by
    intro line hline
    rcases List.mem_append.mp hline with hline | hline
    · obtain ⟨t, _, rfl⟩ := List.mem_map.mp hline
      exact t.oneLine_text
    · rw [List.mem_singleton.mp hline]
      exact List.not_mem_nil
  rw [linesOf, toList_tokenList, List.splitOn_intercalate _ hlines (by simp),
    List.dropLast_concat]

/-- **Without the quotes and the word** a line is the token as it is written. -/
theorem Token.unquoted_text {t : Token} (h : t ≠ .endOfInput) :
    unquoted t.text.toList = t.written := by
  cases t with
  | number v =>
      have hprefix : "number ".toList.isPrefixOf ("number ".toList ++ v.text.toList) :=
        List.isPrefixOf_iff_prefix.mpr (List.prefix_append _ _)
      rw [text, String.toList_append, unquoted, if_pos hprefix, List.drop_left]
      rfl
  | endOfInput => exact absurd rfl h
  | _ => decide

/-! ## Typed in again -/

/-- The tokens with a space between them. -/
def Piece.ofTokens : List Token → List Piece
  | [] => []
  | t :: ts => ⟨[], t⟩ :: ts.map fun u => ⟨[' '], u⟩

theorem Piece.map_token_ofTokens (ts : List Token) : (ofTokens ts).map token = ts := by
  cases ts with
  | nil => rfl
  | cons t ts =>
      rw [ofTokens, List.map_cons, List.map_map]
      exact congrArg (t :: ·) ts.map_id

theorem Piece.join_ofTokens (ts : List Token) :
    join (ofTokens ts) [] = [' '].intercalate (ts.map Token.written) := by
  induction ts with
  | nil => rfl
  | cons t ts ih =>
      cases ts with
      | nil => simp [ofTokens, join, text]
      | cons u us =>
          rw [ofTokens, join_cons, List.nil_append] at ih
          rw [ofTokens, List.map_cons, join_cons, join_cons, ih]
          simp

/-- They can be read, a space keeps two numbers apart. -/
theorem Piece.spaced_ofTokens {ts : List Token} (h : ∀ t ∈ ts, t.IsWritable) :
    Spaced (ofTokens ts) := by
  cases ts with
  | nil => exact ⟨nofun, nofun, .nil⟩
  | cons t ts =>
      have hpiece : ∀ p ∈ ofTokens (t :: ts), p.token ∈ t :: ts ∧ ∀ c ∈ p.gap, c = ' ' := by
        intro p hp
        rcases List.mem_cons.mp hp with rfl | hp
        · exact ⟨List.mem_cons_self, List.forall_mem_nil _⟩
        · obtain ⟨u, hu, rfl⟩ := List.mem_map.mp hp
          exact ⟨List.mem_cons_of_mem t hu, fun c => List.mem_singleton.mp⟩
      refine ⟨fun p hp c hc => ?_, fun p hp => h _ (hpiece p hp).1, ?_⟩
      · rw [(hpiece p hp).2 c hc]
        rfl
      · -- all but the first have a space in front
        refine List.Pairwise.isChain (List.pairwise_cons.mpr ⟨fun p hp => ?_, ?_⟩)
        · obtain ⟨u, _, rfl⟩ := List.mem_map.mp hp
          exact fun _ _ => nofun
        · exact List.pairwise_map.mpr (List.pairwise_of_forall fun _ _ _ _ => nofun)

/-- **The list typed in again gives the tokens back.** -/
theorem tokenize_retyped {ts : List Token} (h : ∀ t ∈ ts, t.IsWritable) :
    tokenize (retyped (tokenList ts)) = .ok ts := by
  have hwritten : (ts.map fun t => t.text.toList).map unquoted = ts.map Token.written := by
    rw [List.map_map]
    exact List.map_congr_left fun t ht => Token.unquoted_text (h t ht).ne_endOfInput
  rw [retyped, linesOf_tokenList, hwritten, ← Piece.join_ofTokens,
    (Piece.spaced_ofTokens h).tokenize_join (List.forall_mem_nil _), Piece.map_token_ofTokens]

/-- So the list determines them. -/
theorem tokenList_injective {ts us : List Token} (hts : ∀ t ∈ ts, t.IsWritable)
    (hus : ∀ u ∈ us, u.IsWritable) (h : tokenList ts = tokenList us) : ts = us := by
  have hback := tokenize_retyped hts
  rw [h, tokenize_retyped hus] at hback
  exact (Except.ok.inj hback).symm

theorem Report.ofExpression_tokens {source : String} {ts : List Token}
    (h : tokenize source = .ok ts) :
    ofExpression .tokens source = success (tokenList ts) := by
  simp only [ofExpression, h, tokenList]

/-- **Two sources have one list exactly if they have the same tokens.** -/
theorem Report.ofExpression_tokens_eq_iff {source source' : String} {ts : List Token}
    (h : tokenize source = .ok ts) :
    ofExpression .tokens source' = ofExpression .tokens source ↔ tokenize source' = .ok ts := by
  rw [ofExpression_tokens h]
  refine ⟨fun heq => ?_, ofExpression_tokens⟩
  cases h' : tokenize source' with
  | ok ts' =>
      rw [ofExpression_tokens h'] at heq
      rw [tokenList_injective (isWritable_of_tokenize h') (isWritable_of_tokenize h)
        (congrArg Report.stdout heq)]
  | error e =>
      -- what cannot be read is reported with another status
      simp only [ofExpression, h'] at heq
      cases congrArg Report.status heq

/--
**What is written out is read, and what is read is listed**: tokens written with blanks between
them, of which two numbers need one, are read as they were; all that can be read can be written;
and the list that `--tokens` writes can be typed in again, so that it tells the tokens of two
sources apart.
-/
theorem tokenize_written :
    (∀ (pieces : List Piece) (trail : List Char), Piece.Spaced pieces →
      (∀ c ∈ trail, isBlank c) →
        tokenize (String.ofList (Piece.join pieces trail)) = .ok (pieces.map Piece.token))
    ∧ ∀ (source : String) (ts : List Token), tokenize source = .ok ts →
      (∀ t ∈ ts, t.IsWritable)
        ∧ ∀ r : Report, r.Lists source →
          (r.status = 0 ∧ r.stderr = "" ∧ tokenize (retyped r.stdout) = .ok ts)
            ∧ ∀ (source' : String) (r' : Report), r'.Lists source' →
              (r' = r ↔ tokenize source' = .ok ts)
                ∧ ∀ ts', tokenize source' = .ok ts' → (r'.stdout = r.stdout ↔ ts' = ts) := by
  refine ⟨fun pieces trail hpieces htrail => hpieces.tokenize_join htrail,
    fun source ts hts => ?_⟩
  have hwritable := isWritable_of_tokenize hts
  refine ⟨hwritable, fun r hr => ?_⟩
  have hlist := hr.eq_ofExpression
  refine ⟨?_, fun source' r' hr' => ⟨?_, fun ts' hts' => ?_⟩⟩
  · rw [hlist, Report.ofExpression_tokens hts]
    exact ⟨rfl, rfl, tokenize_retyped hwritable⟩
  · rw [hlist, hr'.eq_ofExpression]
    exact Report.ofExpression_tokens_eq_iff hts
  · rw [hlist, hr'.eq_ofExpression, Report.ofExpression_tokens hts,
      Report.ofExpression_tokens hts']
    refine ⟨tokenList_injective (isWritable_of_tokenize hts') hwritable, ?_⟩
    rintro rfl
    rfl

/-- The limit of the integers is printed as another number and is read back, and zeros in front
of a number are not listed. -/
theorem tokenize_written_integerLimit :
    tokenize "9223372036854776000-7 \t0\n"
        = .ok [.number (.real (.finite false Magnitude.integerLimit)), .minus,
            .number (.integer 7), .number (.integer 0)]
      ∧ ∃ r : Report, r.Lists "9223372036854775808 07/"
        ∧ r.stdout = "number 9223372036854776000\nnumber 7\n'/'\n"
        ∧ tokenize "9223372036854776000 7 /" = tokenize "9223372036854775808 07/" := by
  obtain ⟨hread, hlist⟩ := tokenize_written
  refine ⟨?_, ?_⟩
  · have hspaced : Piece.Spaced
        [⟨[], .number (.real (.finite false Magnitude.integerLimit))⟩, ⟨[], .minus⟩,
          ⟨[], .number (.integer 7)⟩, ⟨[' ', '\t'], .number (.integer 0)⟩] := by
      have hblank : ∀ c ∈ [' ', '\t'], isBlank c := List.all_eq_true.mp rfl
      refine ⟨by simpa using hblank, fun p hp => ?_, by decide⟩
      simp only [List.mem_cons, List.not_mem_nil, or_false] at hp
      rcases hp with rfl | rfl | rfl | rfl
      · have hlimit : 0x8000000000000000 <<< fractionPlaces ≤ Magnitude.integerLimit.units := by
          decide +kernel
        exact ⟨nofun, hlimit⟩
      · exact ⟨nofun, trivial⟩
      · exact ⟨nofun, show (0 : Int) ≤ Int64.toInt 7 by decide⟩
      · exact ⟨nofun, show (0 : Int) ≤ Int64.toInt 0 by decide⟩
    have hgap : ∀ c ∈ ['\n'], isBlank c := List.forall_mem_singleton.mpr rfl
    refine Eq.trans (congrArg tokenize ?_) (hread _ ['\n'] hspaced hgap)
    decide +kernel
  · have hts : tokenize "9223372036854775808 07/"
        = .ok [.number (.real (.finite false Magnitude.integerLimit)), .number (.integer 7),
            .slash] := by decide +kernel
    obtain ⟨_, hreport⟩ := hlist _ _ hts
    have hr : Report.Lists "9223372036854775808 07/"
        (Report.ofRun ["--tokens", "9223372036854775808 07/"] .empty) :=
      ⟨_, _, by decide +kernel, rfl⟩
    have hstdout : (Report.ofRun ["--tokens", "9223372036854775808 07/"] .empty).stdout
        = "number 9223372036854776000\nnumber 7\n'/'\n" := by decide +kernel
    have hretyped : retyped "number 9223372036854776000\nnumber 7\n'/'\n"
        = "9223372036854776000 7 /" := by decide +kernel
    obtain ⟨⟨_, _, hback⟩, _⟩ := hreport _ hr
    rw [hstdout, hretyped] at hback
    exact ⟨_, hr, hstdout, hback.trans hts.symm⟩

end Calculator
