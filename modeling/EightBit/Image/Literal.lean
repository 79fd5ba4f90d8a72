/-!
Binary literals: one or more digits 0 and 1, before which `0b` may stand once. A literal of any
length denotes a byte, the value of its last eight digits.
-/

namespace EightBit.Image

def dropRadix : List Char → List Char
  | '0' :: 'b' :: digits => digits
  | digits => digits

def isBinaryDigit (c : Char) : Bool :=
  c = '0' || c = '1'

/-- The value of a row of digits modulo 256: each digit moves those before it one place up, and what
leaves the byte is gone. -/
def binaryValue (digits : List Char) : UInt8 :=
  digits.foldl (fun value digit => 2 * value + if digit = '1' then 1 else 0) 0

def literal? (text : List Char) : Option UInt8 :=
  let digits := dropRadix text
  if !digits.isEmpty && digits.all isBinaryDigit then some (binaryValue digits) else none

end EightBit.Image
