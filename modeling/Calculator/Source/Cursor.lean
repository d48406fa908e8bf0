import Calculator.Source.Span

/-!
# A cursor over a source

A cursor hands out the tokens of a source one at a time, in either of two ways.
`read` gives the next token or error, goes on behind an error, and gives the end of
input as often as it is asked for once the source is used up. `next?` is for going
through the tokens of a correct source: it gives nothing at the end, and **after the
end or its first error it gives nothing ever again** and leaves the cursor alone.
The two may be mixed. Only `next?` looks at whether it has ended before; `read` does
not care.
-/

namespace Calculator

/-- A place between two spans of a source. -/
structure Cursor where
  /-- The span read last. -/
  span : Span
  /-- The spans that are still to be read. -/
  pending : List Span
  /-- The byte behind the source. -/
  size : Nat
  /-- `next?` has come to its end. -/
  exhausted : Bool

namespace Cursor

/-- A cursor in front of everything. -/
def ofSource (source : String) : Cursor :=
  { span := ⟨0, []⟩, pending := spans source, size := source.utf8ByteSize, exhausted := false }

/-- The byte behind what has been read. -/
def position (c : Cursor) : Nat := c.span.stop

/-- Reads the next span. -/
def read (c : Cursor) : Except Error Token × Cursor :=
  match c.pending with
  | [] => (.ok .endOfInput, { c with span := ⟨c.size, []⟩ })
  | span :: pending => (span.outcome, { c with span, pending })

/-- Reads the next token, up to the end of the source or the first error. -/
def next? (c : Cursor) : Option (Except Error Token) × Cursor :=
  if c.exhausted then (none, c)
  else
    match c.read with
    | (.ok .endOfInput, c') => (none, { c' with exhausted := true })
    | (.ok token, c') => (some (.ok token), c')
    | (.error e, c') => (some (.error e), { c' with exhausted := true })

/-- How often `next?` can still give something. -/
def left (c : Cursor) : Nat := if c.exhausted then 0 else c.pending.length

/-- Whenever `next?` gives something, it can do so once less often. -/
theorem left_next?_lt {c c' : Cursor} {outcome : Except Error Token}
    (h : c.next? = (some outcome, c')) : c'.left < c.left := by
  unfold next? at h
  split at h
  · cases h
  · rename_i hx
    unfold read at h
    cases hp : c.pending with
    | nil => simp [hp] at h
    | cons span pending =>
        simp only [hp] at h
        split at h <;> cases h <;> simp_all [left]
        rename_i hc
        rw [← hc.2]
        simp

/-- Calls `next?` until it gives nothing. What it gave comes in front of `given`, the last first. -/
def givenFrom (given : List (Except Error Token)) (c : Cursor) :
    List (Except Error Token) × Cursor :=
  match _ : c.next? with
  | (none, c') => (given, c')
  | (some outcome, c') => givenFrom (outcome :: given) c'
termination_by c.left
decreasing_by exact left_next?_lt ‹_›

/-- All that `next?` still gives. -/
def collect (c : Cursor) : List (Except Error Token) × Cursor :=
  let (given, c') := c.givenFrom []
  (given.reverse, c')

end Cursor

end Calculator
