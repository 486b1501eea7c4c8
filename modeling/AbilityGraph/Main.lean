import AbilityGraph.CommandLine
import AbilityGraph.Text.Duration
import AbilityGraph.Text.RandomId
import Std.Time.DateTime

/-!
# The program

Runs the command line on real files and streams, with the real time and random ids for new edges.
-/

set_option autoImplicit false

namespace AbilityGraph

namespace CommandLine

/-- Why a file could not be read or written, from the error of the operating system. The number of
an error may come with its sign changed. -/
def FileError.ofError : IO.Error → FileError
  | .noFileOrDirectory _ _ _ => .notFound
  | .permissionDenied _ _ _ => .permissionDenied
  | .inappropriateType name code details =>
    if code = 20 ∨ code = -20 then .notDirectory
    else if code = 21 ∨ code = -21 then .isDirectory
    else .other (IO.Error.inappropriateType name code details).toString
  | .invalidArgument name code details =>
    if code = 36 ∨ code = -36 then .nameTooLong
    else .other (IO.Error.invalidArgument name code details).toString
  | error => .other error.toString

/-- The time as it is now. -/
def timestampNow : IO Timestamp := do
  let wall := Std.Time.WallTime.ofTimestamp (← Std.Time.Timestamp.now) .zero
  let now := Std.Time.PlainDateTime.ofWallTime wall
  return {
    date := ⟨now.date.year.toInt, now.date.month.val.toNat, now.date.day.val.toNat⟩
    time := ⟨now.time.hour.val.toNat, now.time.minute.val.toNat, now.time.second.val.toNat,
      now.time.nanosecond.val.toNat⟩ }

/-- The world of a program that was started at a time, in nanoseconds of the clock that only goes
forward. -/
def systemHost (started : Nat) : Host IO where
  read path := do
    match ← (IO.FS.readBinFile path).toBaseIO with
    | .error error => return .error (.ofError error)
    | .ok bytes =>
      match String.fromUTF8? bytes with
      | some text => return .ok text
      | none => return .error .notText
  write path text := do
    match ← (IO.FS.writeFile path text).toBaseIO with
    | .error error => return .error (.ofError error)
    | .ok () => return .ok ()
  print text := do (← IO.getStdout).putStr text
  warn text := do (← IO.getStderr).putStr text
  stamp := return ⟨randomId (← IO.getRandomBytes 16).toList, some (← timestampNow)⟩
  elapsed := return durationText ((← IO.monoNanosNow) - started)

end CommandLine

end AbilityGraph

/-- Runs the command line. -/
def main (arguments : List String) : IO UInt32 := do
  let name := (← IO.appPath).fileStem.getD "ability-graph"
  let host := AbilityGraph.CommandLine.systemHost (← IO.monoNanosNow)
  let code ← AbilityGraph.CommandLine.run host name (name ++ " 0.1.0") arguments
  (← IO.getStdout).flush
  return UInt32.ofNat code
