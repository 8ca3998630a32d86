/-
  Rv32Sim.Session

  One run of the program, from its arguments to its output. What it asks of its
  surroundings is the content of the image file, and a folder for the log; it
  does without the log where that folder cannot be made.
-/
import Rv32Sim.Board.Events
import Rv32Sim.CommandLine
import Rv32Sim.FileTree
import Rv32Sim.Report

namespace Rv32Sim

/-- What a run of the program leaves behind. -/
structure Outcome where
  exitCode : UInt32
  out : String
  err : String
  deriving DecidableEq, Repr

/-- What the program does first with its arguments. -/
inductive Plan where
  | finish (outcome : Outcome)
  | simulate (options : CommandLine.Options)
  deriving DecidableEq, Repr

namespace Session

/-- A short description of the arguments. -/
def usage : String :=
  "Usage: rv32sim [OPTIONS] [PATH]\n" ++
  "  PATH                     hex image to run (firmware.hex)\n" ++
  "  -m, --max-cycles NUMBER  stop after this many cycles (150000)\n" ++
  "      --sp WORD            initial stack pointer (0x8000)\n" ++
  "      --pc WORD            reset pc (0)\n" ++
  "  -g, --debug              trace every instruction\n" ++
  "      --loglevel LEVEL     error, warn, info, debug or trace (info)\n" ++
  "  -h, --help               show this text\n" ++
  "  -V, --version            show the version\n"

/-- What to do with arguments. -/
def plan (args : List String) : Plan :=
  match CommandLine.parse args with
  | .ok options => .simulate options
  | .error .help => .finish ⟨0, usage, ""⟩
  | .error .version => .finish ⟨0, "rv32sim\n", ""⟩
  | .error _ => .finish ⟨2, "", usage⟩

/-- The level of the log; debugging shows everything. -/
def logLevel (options : CommandLine.Options) : Level :=
  if options.debug then .trace else options.logLevel

/-- The folder for the log. -/
def logFolder : String := "logs"

/-- What is said where the folder for the log cannot be made. -/
def logFailure : String :=
  "Failed to start logger: Log cannot be written, e.g. because the configured output " ++
  "directory is not accessible\n"

/-- The outcome of a session that ends with a machine. -/
def reported (board : Board) : Outcome := ⟨0, board.report, ""⟩

/-- The outcome of a session without an image. -/
def failed (options : CommandLine.Options) (e : ImageError) : Outcome :=
  ⟨1, "", options.path ++ ": " ++ e.message ++ "\n"⟩

/-- Load the image, run it and report on the machine. -/
def simulate (options : CommandLine.Options) (content : Except ReadError ByteArray) : Outcome :=
  match Board.ofFile content options.config with
  | .ok board => reported board.run
  | .error e => failed options e

/-- Load the image, run it and report on the machine, with the events that the log shows. -/
def simulateWithLog (options : CommandLine.Options) (content : Except ReadError ByteArray) :
    Outcome × Array Event :=
  match Board.ofFile content options.config with
  | .error e => (failed options e, #[])
  | .ok board =>
    let keep (e : Event) := e.isShownAt (logLevel options)
    let rom := board.hart.bus.rom
    let opening := (Image.events rom ++ Board.newEvents rom options.config).filter keep
    let result := board.runUntilWithEvents (fun _ => false) keep opening.toArray
    (reported result.1, result.2)

/-- Keeping a log does not change the outcome. -/
theorem simulateWithLog_fst (options : CommandLine.Options)
    (content : Except ReadError ByteArray) :
    (simulateWithLog options content).1 = simulate options content := by
  unfold simulateWithLog simulate
  cases Board.ofFile content options.config with
  | error e => rfl
  | ok board => simp only [Board.runUntilWithEvents_fst, Board.run]

/-- Carry out a session in a tree of files. The folder for the log is made before the
    image is read. -/
def runIn (tree : FileTree) (args : List String) : Outcome :=
  match plan args with
  | .finish outcome => outcome
  | .simulate options =>
    match tree.makeFolder? logFolder with
    | some tree => simulate options (tree.read options.path)
    | none =>
      let outcome := simulate options (tree.read options.path)
      { outcome with err := logFailure ++ outcome.err }

end Session

end Rv32Sim
