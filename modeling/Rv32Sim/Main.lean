/-
  Rv32Sim.Main

  The program: it reads the image file, carries out the session, and writes the
  report to standard output. The log goes to a file in its own folder, and
  warnings and errors in it also to standard error.
-/
import Rv32Sim.Session

namespace Rv32Sim

/-- The cause of a failed read. The number of the cause comes with either sign. -/
def ReadError.ofIO (e : IO.Error) : ReadError :=
  match e with
  | .noFileOrDirectory .. => .notFound
  | .inappropriateType _ code _ =>
    match min code (0 - code) with
    | 21 => .isFolder
    | 20 => .notFolder
    | _ => .other (toString e)
  | .invalidArgument _ code _ =>
    if min code (0 - code) = 36 then .nameTooLong else .other (toString e)
  | _ => .other (toString e)

/-- The content of a file, or why it cannot be read. -/
def readFile (path : String) : IO (Except ReadError ByteArray) := do
  try return .ok (← IO.FS.readBinFile path)
  catch e => return .error (.ofIO e)

/-- The file for the log, where it can be made. -/
def openLog : IO (Option IO.FS.Handle) := do
  try
    IO.FS.createDirAll Session.logFolder
    return some (← IO.FS.Handle.mk (Session.logFolder ++ "/rv32sim.log") .write)
  catch _ =>
    (← IO.getStderr).putStr Session.logFailure
    return none

/-- Write out what a session leaves behind. -/
def Outcome.emit (o : Outcome) : IO UInt32 := do
  (← IO.getStdout).putStr o.out
  (← IO.getStderr).putStr o.err
  return o.exitCode

/-- Carry out a session. -/
def runProgram (args : List String) : IO UInt32 := do
  match Session.plan args with
  | .finish outcome => outcome.emit
  | .simulate options =>
    let file ← openLog
    let content ← readFile options.path
    let start ← IO.monoMsNow
    let (outcome, log) := Session.simulateWithLog options content
    if let some handle := file then
      let err ← IO.getStderr
      for event in log do
        handle.putStrLn event.line
        if event.isShownAt .warn then
          err.putStrLn event.line
    let code ← outcome.emit
    if code = 0 then
      let elapsed := (← IO.monoMsNow) - start
      IO.println s!"Used time: {elapsed}ms"
    return code

end Rv32Sim

/-- The entry point. -/
def main (args : List String) : IO UInt32 := Rv32Sim.runProgram args
