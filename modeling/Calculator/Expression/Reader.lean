import Calculator.Source.Cursor

/-!
# A reader with one token of look-ahead

A reader goes over the tokens of a source and always looks at one of them, together
with the place where it stands. It moves on by reading past that token. Where the
next one cannot be read, the cursor below has moved, but the reader goes on looking
at the token it has; whoever uses it may try again.

How much there is left to read is the number of spans that are pending, and one more
while the reader does not yet look at the end of input. **Reading past any other
token leaves less to read**, which is why the loops over a reader stop.
-/

namespace Calculator

/-- A cursor and the token in front of it. -/
structure Reader where
  cursor : Cursor
  /-- The token that is looked at. -/
  current : Token
  /-- Where it stands. -/
  span : Span

namespace Reader

/-- A reader that looks at the next token of a cursor. -/
def ofCursor (c : Cursor) : Except Error Reader :=
  match c.read with
  | (.ok token, cursor) => .ok { cursor, current := token, span := cursor.span }
  | (.error e, _) => .error e

/-- A reader that looks at the first token of a source. -/
def ofSource (source : String) : Except Error Reader := ofCursor (Cursor.ofSource source)

/-- Reads past the current token. Where no other can be read, the reader goes on looking at it. -/
def advance (r : Reader) : Except Error Unit × Reader :=
  match r.cursor.read with
  | (.ok token, cursor) => (.ok (), { cursor, current := token, span := cursor.span })
  | (.error e, cursor) => (.error e, { r with cursor })

/-- Reads past a token of the expected kind. -/
def consume (expected : Token) (r : Reader) : Except Error Unit × Reader :=
  if r.current.sameKind expected then r.advance
  else (.error ⟨.unexpectedToken expected r.current, r.span.start⟩, r)

/-- How much there is left to read. -/
def remaining (r : Reader) : Nat :=
  r.cursor.pending.length + if r.current = .endOfInput then 0 else 1

/-- The operator of the given level that is looked at, if there is one. -/
def operator? (level : Level) (r : Reader) : Option Operator :=
  r.current.operator?.filter fun op => op.level = level

/-- Reading on never leaves more to read, whether it succeeds or not. -/
theorem advance_le {r r' : Reader} {outcome : Except Error Unit} (h : r.advance = (outcome, r')) :
    r'.remaining ≤ r.remaining := by
  unfold advance Cursor.read at h
  cases hp : r.cursor.pending with
  | nil =>
      simp only [hp] at h
      cases h
      simp [remaining, hp]
  | cons span pending =>
      simp only [hp] at h
      cases ho : span.outcome with
      | ok token =>
          simp only [ho] at h
          cases h
          simp only [remaining, hp, List.length_cons]
          split <;> omega
      | error e =>
          simp only [ho] at h
          cases h
          simp only [remaining, hp, List.length_cons]
          omega

/-- **Reading past a token leaves less to read.** -/
theorem advance_lt {r r' : Reader} (h : r.advance = (.ok (), r')) (hc : r.current ≠ .endOfInput) :
    r'.remaining < r.remaining := by
  unfold advance Cursor.read at h
  cases hp : r.cursor.pending with
  | nil =>
      simp only [hp] at h
      cases h
      simp [remaining, hp, hc]
  | cons span pending =>
      simp only [hp] at h
      cases ho : span.outcome with
      | ok token =>
          simp only [ho] at h
          cases h
          simp only [remaining, hp, hc, List.length_cons, ite_false]
          split <;> omega
      | error e =>
          simp only [ho] at h
          cases h

theorem ne_endOfInput_of_sign? {t : Token} {sign : Sign} (h : t.sign? = some sign) :
    t ≠ .endOfInput := by
  rintro rfl
  cases h

theorem ne_endOfInput_of_number {r : Reader} {v : Value} (h : r.current = .number v) :
    r.current ≠ .endOfInput := by
  rw [h]
  exact Token.noConfusion

theorem ne_endOfInput_of_operator? {r : Reader} {level : Level} {op : Operator}
    (h : r.operator? level = some op) : r.current ≠ .endOfInput := by
  intro hc
  rw [operator?, hc] at h
  cases h

end Reader

end Calculator
