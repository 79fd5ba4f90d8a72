import EightBit.Log

/-!
What the arguments of the command line ask for. They are read from left to right, and the first that
asks for help or for the version decides, as does the first that cannot be accepted.
-/

namespace EightBit.CommandLine

inductive Request where
  | help
  | version
  /-- Run the image at the path `program`, logging more the higher `verbosity` is. -/
  | run (program : String) (verbosity : Nat)
  deriving DecidableEq, Repr

namespace Request

/-- The verbosity after it has been asked for once more. It is counted in a byte, which stops at its
greatest value. -/
def raise (verbosity : Nat) : Nat :=
  min 255 (verbosity + 1)

inductive Letter where
  | help
  | version
  | verbose
  deriving DecidableEq, Repr

def Letter.ofChar? : Char → Option Letter
  | 'h' => some .help
  | 'V' => some .version
  | 'v' => some .verbose
  | _ => none

/-- The result of a group of letters: the verbosity they have raised, unless one before the end
decides the request or is unknown. -/
inductive Group where
  | verbose (verbosity : Nat)
  | decided (request : Request)
  | unknown
  deriving DecidableEq, Repr

def Group.ofLetters (verbosity : Nat) : List Char → Group
  | [] => .verbose verbosity
  | c :: rest =>
      match Letter.ofChar? c with
      | some .help => .decided .help
      | some .version => .decided .version
      | some .verbose => ofLetters (raise verbosity) rest
      | none => .unknown

/-- Reads arguments that cannot be options: there must be exactly one program. -/
def ofPaths? (verbosity : Nat) : Option String → List String → Option Request
  | some program, [] => some (.run program verbosity)
  | none, [path] => if path.isEmpty then none else some (.run path verbosity)
  | _, _ => none

def ofArgumentsFrom? (program : Option String) (verbosity : Nat) : List String → Option Request
  | [] => program.map (.run · verbosity)
  | argument :: rest =>
      match argument.toList with
      | ['-', '-'] => ofPaths? verbosity program rest
      | '-' :: '-' :: _ =>
          if argument = "--help" then some .help
          else if argument = "--version" then some .version
          else if argument = "--verbose" then ofArgumentsFrom? program (raise verbosity) rest
          else none
      | '-' :: c :: letters =>
          match Group.ofLetters verbosity (c :: letters) with
          | .verbose raised => ofArgumentsFrom? program raised rest
          | .decided request => some request
          | .unknown => none
      | [] => none
      | _ :: _ =>
          match program with
          | none => ofArgumentsFrom? (some argument) verbosity rest
          | some _ => none

/-- What a list of arguments asks for, if it can be accepted. A program has to be named, and only
one. The empty word names none. -/
def ofArguments? (arguments : List String) : Option Request :=
  ofArgumentsFrom? none 0 arguments

def threshold : Nat → Log.Threshold
  | 0 => some .warn
  | 1 => some .info
  | 2 => some .debug
  | _ => some .trace

end Request

end EightBit.CommandLine
