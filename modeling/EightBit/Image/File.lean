import EightBit.Image

/-!
Images in files: why the bytes of a file may not be at hand, and reading the image they make up.
-/

namespace EightBit

/-- Why the bytes of a file cannot be had, or are no text. -/
inductive ReadError where
  | noSuchFile
  | isDirectory
  | notDirectory
  | nameTooLong
  | nameHasNul
  | notText
  /-- Any other failure, in the words of the system. -/
  | other (message : String)
  deriving DecidableEq, Repr

def ReadError.message : ReadError → String
  | noSuchFile => "No such file or directory (os error 2)"
  | isDirectory => "Is a directory (os error 21)"
  | notDirectory => "Not a directory (os error 20)"
  | nameTooLong => "File name too long (os error 36)"
  | nameHasNul => "file name contained an unexpected NUL byte"
  | notText => "stream did not contain valid UTF-8"
  | other message => message

inductive LoadError where
  | unavailable (path : String) (cause : ReadError)
  | fault (reason : Fault)
  deriving DecidableEq, Repr

def LoadError.message : LoadError → String
  | unavailable path .noSuchFile => "program not found: " ++ path
  | unavailable path _ => "failed to read program: " ++ path
  | fault reason => reason.message

def LoadError.cause? : LoadError → Option String
  | unavailable _ cause => some cause.message
  | fault reason => reason.cause?

namespace Image

def decode (content : Except ReadError ByteArray) : Except ReadError String := do
  match String.fromUTF8? (← content) with
  | some text => .ok text
  | none => .error .notText

def load (size : Nat) (path : String) (content : Except ReadError ByteArray) :
    Loaded LoadError size :=
  match decode content with
  | .error cause => { result := .error (.unavailable path cause), notices := [] }
  | .ok text =>
      let loaded := parse size text
      { result := loaded.result.mapError .fault, notices := .loading path :: loaded.notices }

end Image

end EightBit
