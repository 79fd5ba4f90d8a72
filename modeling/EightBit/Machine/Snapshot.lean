import EightBit.Machine

/-!
What one line shows of a machine: program counter, flags, the three bytes that the next cycle will
fetch, and the general registers.
-/

namespace EightBit

structure Snapshot where
  pc : UInt8
  fl : UInt8
  /-- The byte at the program counter, unless there is no such cell; so for the two behind it. -/
  opcode : Option UInt8
  operandA : Option UInt8
  operandB : Option UInt8
  general : Vector UInt8 8
  deriving DecidableEq, Repr

namespace Snapshot

def byteText (byte : UInt8) : String :=
  Text.hex byte.toNat

def cellText : Option UInt8 → String
  | some byte => byteText byte
  | none => "--"

/-- The line: program counter, flags and fetched bytes, general registers, each part behind a
bar. -/
def line (snapshot : Snapshot) : String :=
  "TRACE: " ++ byteText snapshot.pc ++ " | " ++
    " ".intercalate [byteText snapshot.fl, cellText snapshot.opcode, cellText snapshot.operandA,
      cellText snapshot.operandB] ++
    " | " ++ " ".intercalate (snapshot.general.toList.map byteText)

end Snapshot

def Machine.snapshot {size : Nat} (machine : Machine size) : Snapshot where
  pc := machine.pc
  fl := machine.fl
  opcode := machine.memory.cells[machine.pc.toNat]?
  operandA := machine.memory.cells[machine.pc.toNat + 1]?
  operandB := machine.memory.cells[machine.pc.toNat + 2]?
  general := machine.general

end EightBit
