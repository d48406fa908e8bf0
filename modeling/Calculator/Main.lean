import Calculator.CommandLine.Report

/-!
# The program

Reads the arguments and, where they name no expression, a line of standard input, and
writes the report. The prompt has to be on the screen before the line is awaited;
otherwise everything is decided by `Report.ofRun`.
-/

namespace Calculator

/-- Reads bytes up to the end of a line or of the input. -/
partial def readLine (input : IO.FS.Stream) (read : ByteArray) : IO ByteArray := do
  let byte ← input.read 1
  if byte.isEmpty || byte.data == #[10] then return read ++ byte
  readLine input (read ++ byte)

end Calculator

open Calculator

def main (arguments : List String) : IO UInt32 := do
  let stdout ← IO.getStdout
  let stderr ← IO.getStderr
  let report ←
    match Request.ofArguments arguments with
    | .run mode none =>
      stdout.putStr Report.prompt
      stdout.flush
      pure (Report.ofInput mode (← readLine (← IO.getStdin) ByteArray.empty))
    | _ => pure (Report.ofRun arguments ByteArray.empty)
  stdout.putStr report.stdout
  stdout.flush
  stderr.putStr report.stderr
  return report.status.toUInt32
