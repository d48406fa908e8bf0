import Calculator.CommandLine.Request
import Calculator.Evaluate

/-!
# What a run writes

A run ends with a status and leaves text on standard output and standard error. It is
**all or nothing**: either the status is 0 and standard error stays empty, or the
error is the one line on standard error and standard output holds at most the prompt.

Without an expression among the arguments, the first line of standard input is the
expression, less the characters that end a line, and the prompt comes first. What
follows that line is not looked at.
-/

namespace Calculator

/-- How a run ends. -/
structure Report where
  status : Nat
  stdout : String
  stderr : String
deriving DecidableEq

namespace Report

/-- A run that has its answer. -/
def success (stdout : String) : Report := { status := 0, stdout, stderr := "" }

/-- A run that has none, and says why. -/
def failure (line : String) : Report := { status := 1, stdout := "", stderr := line ++ "\n" }

/-- The report on an expression without a value. -/
def ofError (e : Error) : Report := failure ("Error: " ++ e.message)

/-- What asks for an expression. -/
def prompt : String := "Enter your arithmetic expression: "

/-- What `--version` writes. -/
def versionText : String := "arithex 0.1.0\n"

/-- What `--help` writes. -/
def helpText : String :=
  "A single-pass interpreter for integer arithmetic expressions.\n\n"
    ++ "Usage: arithex [OPTIONS] [EXPRESSION]\n\n"
    ++ "Arguments:\n"
    ++ "  [EXPRESSION]  The expression to evaluate. Read from standard input when omitted\n\n"
    ++ "Options:\n"
    ++ "  -c, --check    Only report whether the expression is valid, without its value\n"
    ++ "  -t, --tokens   Print the tokens of the expression instead of evaluating it\n"
    ++ "  -h, --help     Print help\n"
    ++ "  -V, --version  Print version\n"

/--
What arguments that make no sense are answered with. The wording is this library's own, for a
derived parser words its message after the argument at fault: of such a run only the status 2
and the empty standard output are to be relied on.
-/
def misuseText : String :=
  "error: the arguments make no sense\n\n"
    ++ "Usage: arithex [OPTIONS] [EXPRESSION]\n\n"
    ++ "For more information, try '--help'.\n"

/-- The report on an expression. -/
def ofExpression (mode : Mode) (source : String) : Report :=
  match mode with
  | .tokens =>
    match tokenize source with
    | .ok tokens => success (String.join (tokens.map fun token => token.text ++ "\n"))
    | .error e => ofError e
  | .check =>
    match check source with
    | .ok () => success "The expression has been parsed successfully\n"
    | .error e => ofError e
  | .evaluate =>
    match evaluate source with
    | .ok value =>
      success ("The expression has been parsed successfully\nResult: " ++ value.text ++ "\n")
    | .error e => ofError e

/-- The first line of an input without the characters that end it, where it is UTF-8. -/
def firstLine? (input : ByteArray) : Option String :=
  let line := input.data.toList.takeWhile fun byte => byte != 10
  (String.fromUTF8? ⟨line.toArray⟩).map fun text =>
    String.ofList (text.toList.reverse.dropWhile fun c => c == '\r' || c == '\n').reverse

/-- The report on the expression in the first line of an input, the prompt apart. -/
def ofInput (mode : Mode) (input : ByteArray) : Report :=
  match firstLine? input with
  | some source => ofExpression mode source
  | none =>
    failure
      "Failed to read the expression from standard input: stream did not contain valid UTF-8"

/-- The report on a whole run. -/
def ofRun (arguments : List String) (input : ByteArray) : Report :=
  match Request.ofArguments arguments with
  | .help => success helpText
  | .version => success versionText
  | .misuse => { status := 2, stdout := "", stderr := misuseText }
  | .run mode (some source) => ofExpression mode source
  | .run mode none =>
    let report := ofInput mode input
    { report with stdout := prompt ++ report.stdout }

end Report

end Calculator
