import SciCalc.CommandLine
import Std.Time.Zoned

/-! # The program

Reads formulas from standard input and writes their values to standard output, as the options
of the command line say.
-/

namespace SciCalc.Program

/-- All that standard input holds. -/
partial def readAll (input : IO.FS.Stream) (read : String) : IO String := do
  let line ← input.getLine
  if line.isEmpty then return read else readAll input (read ++ line)

/-- A number below one hundred in two digits. -/
def twoDigits (n : Int) : String := if n < 10 then "0" ++ toString n else toString n

/-- The time of day in hours, minutes and seconds. -/
def timeOfDay : IO String := do
  let now ← Std.Time.PlainTime.now
  return String.intercalate ":"
    [twoDigits now.hour.val, twoDigits now.minute.val, twoDigits now.second.val]

end SciCalc.Program

/-- Runs the program and answers its exit code. -/
def main (arguments : List String) : IO UInt32 := do
  let input ← SciCalc.Program.readAll (← IO.getStdin) ""
  match SciCalc.CommandLine.main (← SciCalc.Program.timeOfDay) arguments input with
  | .ok completion =>
    (← IO.getStdout).putStr completion.output
    return completion.exitCode.toUInt32
  | .error _ => return 1
