/-!
# What the arguments ask for

Arguments are read from left to right. Flags have a long name, as in `--check`, or a
letter, and letters can share an argument, as in `-ct`. Anything else is the
expression, of which there is at most one; after `--` everything is. A lone `-` and
the empty argument are expressions too.

The two flags and the expression are declared, and the arguments are read the way that is
documented of a parser derived from such a declaration. The help and the version come with
it, a name counts only when it is written out, and a flag takes no value and stands at most
once.

Asking for the help or the version, and every misuse, **ends the reading at once**, so
that of two of them the first counts. Only that `--check` and `--tokens` exclude each
other is seen at the end.
-/

namespace Calculator

/-- What is to be done with the expression. -/
inductive Mode where
  /-- Write its value. -/
  | evaluate
  /-- Only say that it has one. -/
  | check
  /-- Write its tokens. -/
  | tokens
deriving DecidableEq

/-- What a run of the program is asked for. -/
inductive Request where
  | help
  | version
  /-- The arguments make no sense. -/
  | misuse
  /-- An expression is given, or else is to be read from standard input. -/
  | run (mode : Mode) (expression : Option String)
deriving DecidableEq

/-- What an argument that starts with `-` can stand for. -/
inductive Flag where
  | check
  | tokens
  | help
  | version
deriving DecidableEq

namespace Flag

/-- The flag of a long name, the two dashes apart. -/
def ofName? : List Char → Option Flag
  | ['c', 'h', 'e', 'c', 'k'] => some check
  | ['t', 'o', 'k', 'e', 'n', 's'] => some tokens
  | ['h', 'e', 'l', 'p'] => some help
  | ['v', 'e', 'r', 's', 'i', 'o', 'n'] => some version
  | _ => none

/-- The flag of a letter. -/
def ofLetter? : Char → Option Flag
  | 'c' => some check
  | 't' => some tokens
  | 'h' => some help
  | 'V' => some version
  | _ => none

end Flag

/-- What the arguments have said so far. -/
structure Settings where
  check : Bool := false
  tokens : Bool := false
  expression : Option String := none
  /-- `--` has been met: no argument is a flag any more. -/
  flagsEnded : Bool := false
deriving DecidableEq

namespace Settings

/-- A flag changes the settings or ends the reading. No flag may be given twice. -/
def setFlag (s : Settings) : Option Flag → Except Request Settings
  | some .check => if s.check then .error .misuse else .ok { s with check := true }
  | some .tokens => if s.tokens then .error .misuse else .ok { s with tokens := true }
  | some .help => .error .help
  | some .version => .error .version
  | none => .error .misuse

/-- There is at most one expression. -/
def setExpression (s : Settings) (expression : String) : Except Request Settings :=
  match s.expression with
  | none => .ok { s with expression := some expression }
  | some _ => .error .misuse

/-- An argument changes the settings or ends the reading. -/
def setArgument (s : Settings) (argument : String) : Except Request Settings :=
  if s.flagsEnded then s.setExpression argument
  else
    match argument.toList with
    | ['-', '-'] => .ok { s with flagsEnded := true }
    | '-' :: '-' :: name => s.setFlag (Flag.ofName? name)
    | '-' :: letter :: letters =>
      (letter :: letters).foldlM (fun s letter => s.setFlag (Flag.ofLetter? letter)) s
    | _ => s.setExpression argument

/-- What is asked for once all arguments are read. -/
def request (s : Settings) : Request :=
  match s.check, s.tokens with
  | true, true => .misuse
  | true, false => .run .check s.expression
  | false, true => .run .tokens s.expression
  | false, false => .run .evaluate s.expression

end Settings

/-- What the arguments ask for, all in all. -/
def Request.ofArguments (arguments : List String) : Request :=
  match arguments.foldlM Settings.setArgument {} with
  | .ok settings => settings.request
  | .error request => request

end Calculator
