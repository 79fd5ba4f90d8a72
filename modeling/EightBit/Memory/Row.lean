import EightBit.Log
import EightBit.Memory

/-!
Rows of memory: sixteen cells from an address divisible by sixteen on, fewer in the last row. A
dump is the list of the rows that hold anything but zeros.
-/

namespace EightBit

namespace Memory

structure Row where
  address : Nat
  bytes : List UInt8
  deriving DecidableEq, Repr

def Row.width : Nat := 16

def Row.isZero (row : Row) : Bool :=
  row.bytes.all (· == 0)

def Row.message (row : Row) : String :=
  Text.hex row.address ++ ": " ++
    " ".intercalate (row.bytes.map fun byte => Text.hex byte.toNat)

instance : Log.Entry Row where
  level _ := .debug
  target _ := "ls8::memory"
  message := Row.message

variable {size : Nat}

def rows (memory : Memory size) : List Row :=
  (List.range ((size + Row.width - 1) / Row.width)).map fun k =>
    { address := Row.width * k
      bytes := (memory.cells.toList.drop (Row.width * k)).take Row.width }

/-- The rows that hold anything but zeros, by ascending address. -/
def dump (memory : Memory size) : List Row :=
  memory.rows.filter fun row => !row.isZero

end Memory

end EightBit
