import EightBit.Image.Literal
import EightBit.Log
import EightBit.Memory
import EightBit.Text.Blank
import EightBit.Text.Line

/-!
Program images: text with one byte on a line, written as a binary literal, and comments from `#` to
the end of the line. The bytes go to memory in order, from address 0 on. A line that holds something
else is skipped and reported; it takes no address.
-/

namespace EightBit.Image

inductive Reading where
  /-- Nothing, or a comment alone. -/
  | blank
  | byte (value : UInt8)
  /-- Something that is no literal; the whole line without the blanks at its ends. -/
  | malformed (text : String)
  deriving DecidableEq, Repr

/-- The part of a line before its comment, without the blanks at its ends. -/
def code (line : List Char) : List Char :=
  Text.trim (line.takeWhile (· ≠ '#'))

def Reading.ofLine (line : List Char) : Reading :=
  if (code line).isEmpty then .blank
  else
    match literal? (code line) with
    | some value => .byte value
    | none => .malformed (String.ofList (Text.trim line))

inductive Notice where
  /-- The text of the image at `path` is at hand and about to be read. -/
  | loading (path : String)
  /-- A malformed line, by its number, counted from 1. -/
  | skipped (line : Nat) (text : String)
  /-- The end of the image, with the numbers of its bytes and of all its lines. -/
  | loaded (bytes lines : Nat)
  deriving DecidableEq, Repr

def Notice.level : Notice → Log.Level
  | loading _ => .info
  | skipped _ _ => .warn
  | loaded _ _ => .debug

def Notice.message : Notice → String
  | loading path => "Loading program `" ++ path ++ "`"
  | skipped line text => "[" ++ toString line ++ "] Skipping malformed line `" ++ text ++ "`"
  | loaded bytes lines =>
      "Loaded " ++ toString bytes ++ " bytes from " ++ toString lines ++ " lines"

instance : Log.Entry Notice where
  level := Notice.level
  target _ := "ls8::memory::parse"
  message := Notice.message

/-- The memory an image gives, or why it gives none, and what was logged up to then. -/
structure Loaded (ε : Type) (size : Nat) where
  result : Except ε (Memory size)
  notices : List Notice

variable {size : Nat}

/-- Reads the lines that follow the first `before` ones, and puts their bytes into `memory` from
`address` on. -/
def place (before address : Nat) (memory : Memory size) :
    List (List Char) → Loaded Fault size
  | [] => { result := .ok memory, notices := [.loaded address before] }
  | line :: rest =>
      match Reading.ofLine line with
      | .blank => place (before + 1) address memory rest
      | .byte value =>
          match memory.write address value with
          | .ok next => place (before + 1) (address + 1) next rest
          | .error fault => { result := .error fault, notices := [] }
      | .malformed text =>
          let loaded := place (before + 1) address memory rest
          { loaded with notices := .skipped (before + 1) text :: loaded.notices }

/-- Reads the image `text` into `base`, whose cells behind its bytes stay as they are. -/
def parseInto (base : Memory size) (text : String) : Loaded Fault size :=
  place 0 0 base (Text.lines text.toList)

def parse (size : Nat) (text : String) : Loaded Fault size :=
  parseInto (Memory.zero size) text

end EightBit.Image
