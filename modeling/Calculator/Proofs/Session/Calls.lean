import Calculator.Expression.Rule

/-!
# Sessions

A session is what someone does with a source who calls one operation after the other: first
with a cursor, and once a reader has been set on it, with that reader. Any call can follow
any other, **also one that has failed**; only reading the whole of an expression is the last
one. What is said about sessions is said about every order of calls there is.

An invariant of sessions is shown call by call; `Session.invariant_run` takes it to a whole
run.
-/

namespace Calculator

/-- What can be asked for. -/
inductive Call where
  /-- The next token, of a cursor. -/
  | read
  /-- The next token as long as there has been neither an end nor an error. -/
  | next
  /-- A reader on the cursor. -/
  | look
  /-- Reading past a token of the expected kind. -/
  | consume (expected : Token)
  | factor
  | term
  | expression
  /-- An expression and the end of the source behind it. -/
  | whole

/-- What comes back. -/
inductive Answer where
  | token (outcome : Except Error Token)
  | given (outcome : Option (Except Error Token))
  | done (outcome : Except Error Unit)
  | value (outcome : Except Error Value)

/-- What there is to make calls on. -/
inductive Session where
  | reading (c : Cursor)
  | looking (r : Reader)
  | closed

namespace Session

/-- A session with a source begins with a cursor in front of everything. -/
def start (source : String) : Session := reading (Cursor.ofSource source)

/-- A rule, called on a reader. -/
def ofRule (rule : Rule) (r : Reader) : Answer × Session :=
  (.value (rule.run r).1, looking (rule.run r).2)

/-- Makes a call, where it is one that can be made. -/
def call : Session → Call → Option (Answer × Session)
  | reading c, .read => some (.token c.read.1, reading c.read.2)
  | reading c, .next => some (.given c.next?.1, reading c.next?.2)
  | reading c, .look =>
    match Reader.ofCursor c with
    | .ok r => some (.token (.ok r.current), looking r)
    | .error e => some (.token (.error e), closed)
  | looking r, .consume expected =>
    some (.done (r.consume expected).1, looking (r.consume expected).2)
  | looking r, .factor => some (ofRule Rule.factor r)
  | looking r, .term => some (ofRule Rule.term r)
  | looking r, .expression => some (ofRule Rule.expression r)
  | looking r, .whole => some (.value r.whole, closed)
  | _, _ => none

/-- Makes calls one after the other. -/
def run : Session → List Call → Option (List Answer × Session)
  | s, [] => some ([], s)
  | s, c :: cs =>
    match s.call c with
    | none => none
    | some (answer, s') => (s'.run cs).map fun result => (answer :: result.1, result.2)

/-- The token that is looked at. -/
def current? : Session → Option Token
  | looking r => some r.current
  | _ => none

theorem run_cons {s s₁ s₂ : Session} {c : Call} {cs : List Call} {a : Answer}
    {answers : List Answer} (hcall : s.call c = some (a, s₁))
    (hrun : s₁.run cs = some (answers, s₂)) : s.run (c :: cs) = some (a :: answers, s₂) := by
  rw [run, hcall]
  dsimp only
  rw [hrun]
  rfl

/-- **What every call keeps, a run keeps**, and all that comes back is as it is for one call. -/
theorem invariant_run {Inv : Session → Prop} {P : Answer → Prop}
    (hcall : ∀ {s s' c a}, Inv s → s.call c = some (a, s') → P a ∧ Inv s')
    {s s' : Session} {calls : List Call} {answers : List Answer} (hs : Inv s)
    (h : s.run calls = some (answers, s')) : (∀ a ∈ answers, P a) ∧ Inv s' := by
  induction calls generalizing s answers with
  | nil =>
      cases h
      exact ⟨fun a ha => absurd ha List.not_mem_nil, hs⟩
  | cons c cs ih =>
      unfold run at h
      split at h
      · cases h
      · rename_i a s₁ hc
        obtain ⟨⟨rest, s₂⟩, hrest, heq⟩ := Option.map_eq_some_iff.mp h
        cases heq
        obtain ⟨ha, hs₁⟩ := hcall hs hc
        obtain ⟨hall, hs₂⟩ := ih hs₁ hrest
        exact ⟨List.forall_mem_cons.mpr ⟨ha, hall⟩, hs₂⟩

end Session

end Calculator
