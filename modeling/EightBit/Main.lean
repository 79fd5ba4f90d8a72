import EightBit.CommandLine.Session

/-!
The command line program. It reads the image, writes output and log as the run brings them, and ends
with the status of the session.
-/

namespace EightBit.CommandLine

/-- The number of a system error, which may come with its sign turned. -/
def errorNumber (code : UInt32) : Nat :=
  min code.toNat (UInt32.size - code.toNat)

def readError (error : IO.Error) : ReadError :=
  match error with
  | .noFileOrDirectory .. => .noSuchFile
  | .inappropriateType _ code _ =>
      if errorNumber code = 21 then .isDirectory else .notDirectory
  | .invalidArgument _ code _ =>
      if errorNumber code = 36 then .nameTooLong else .other (toString error)
  | error => .other (toString error)

def readFile (path : String) : IO (Except ReadError ByteArray) := do
  try
    return .ok (← IO.FS.readBinFile path)
  catch error =>
    return .error (readError error)

def writeLog (records : List Log.Record) : IO Unit :=
  for record in records do
    IO.eprintln (record.level.name ++ " [" ++ record.target ++ "] " ++ record.message)

def writeResult (result : Result) : IO UInt32 := do
  IO.print result.stdout
  writeLog result.log
  unless result.failure.isEmpty do
    IO.eprintln ("Error: " ++ "\nCaused by: ".intercalate result.failure)
  if result.status = usageStatus then IO.eprint helpText
  return result.status.toUInt32

def burst : Nat := 512

/-- Runs until the program ends, writing what every burst of cycles brings. -/
partial def runInBursts (threshold : Log.Threshold) (machine : Machine memorySize) : IO UInt32 := do
  let outcome := machine.run burst none
  let result := Session.finish threshold [] outcome
  if outcome.ended then
    writeResult result
  else
    IO.print result.stdout
    writeLog result.log
    runInBursts threshold outcome.machine

def readProgram (arguments : List String) : IO (Except ReadError ByteArray) :=
  match Request.ofArguments? arguments with
  | some (.run program _) => readFile program
  | _ => return .error .noSuchFile

end EightBit.CommandLine

open EightBit.CommandLine in
def main (arguments : List String) : IO UInt32 := do
  let content ← readProgram arguments
  match Session.start (fun _ => content) arguments with
  | .over result => writeResult result
  | .ready threshold log machine =>
      writeLog log
      runInBursts threshold machine
