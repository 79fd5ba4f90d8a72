import EightBit.CommandLine.Request
import EightBit.Image.File
import EightBit.Machine.Run
import EightBit.Memory.Row

/-!
An invocation from its arguments to its exit status: the image is loaded, its rows are listed in the
log, the machine runs, and what went wrong is reported as a chain of messages.
-/

namespace EightBit.CommandLine

def memorySize : Nat := 256

def helpText : String :=
  "\n".intercalate
    ["Runs an LS-8 program image",
      "",
      "Usage: ls8 [OPTIONS] <PROGRAM>",
      "",
      "Arguments:",
      "  <PROGRAM>  Program image, one binary literal per line",
      "",
      "Options:",
      "  -v, --verbose...  Log more (-v info, -vv debug, -vvv per-cycle trace)",
      "  -h, --help        Print help",
      "  -V, --version     Print version",
      ""]

def versionText : String :=
  "ls8 0.1.0\n"

structure Result where
  status : Nat
  stdout : String := ""
  log : List Log.Record := []
  /-- The messages of a failure, the outermost first; none after a success. -/
  failure : List String := []
  deriving DecidableEq, Repr

def usageStatus : Nat := 2

/-- An invocation up to the first cycle of its program. -/
inductive Session where
  | over (result : Result)
  /-- The machine is about to run, and `log` has been written. -/
  | ready (threshold : Log.Threshold) (log : List Log.Record) (machine : Machine memorySize)

namespace Session

def loadFailure (path : String) (error : LoadError) : List String :=
  ["Failed to load `" ++ path ++ "`", error.message] ++ error.cause?.toList

def runFailure (machine : Machine memorySize) (fault : Fault) : List String :=
  ["Machine stopped: " ++ machine.snapshot.line, fault.message] ++ fault.cause?.toList

def load (path : String) (threshold : Log.Threshold) (content : Except ReadError ByteArray) :
    Session :=
  let loaded := Image.load memorySize path content
  let log := Log.records threshold loaded.notices
  match loaded.result with
  | .ok memory =>
      .ready threshold (log ++ Log.records threshold memory.dump) (Machine.ofMemory memory)
  | .error error => .over { status := 1, log, failure := loadFailure path error }

def start (read : String → Except ReadError ByteArray) (arguments : List String) : Session :=
  match Request.ofArguments? arguments with
  | none => .over { status := usageStatus }
  | some .help => .over { status := 0, stdout := helpText }
  | some .version => .over { status := 0, stdout := versionText }
  | some (.run program verbosity) => load program (Request.threshold verbosity) (read program)

def failure (outcome : Outcome memorySize) : List String :=
  match outcome.fault with
  | some fault => runFailure outcome.machine fault
  | none => []

/-- The result of an ended run, before which `log` had been written. -/
def finish (threshold : Log.Threshold) (log : List Log.Record) (outcome : Outcome memorySize) :
    Result where
  status := if outcome.fault.isSome then 1 else 0
  stdout := outcome.output
  log := log ++ Log.records threshold outcome.log
  failure := failure outcome

def result? (budget : Nat) : Session → Option Result
  | .over result => some result
  | .ready threshold log machine =>
      let outcome := machine.run budget none
      if outcome.ended then some (finish threshold log outcome) else none

end Session

end EightBit.CommandLine
