import EightBit.Instruction
import EightBit.Memory

/-!
The machine: registers, memory and whether it has halted. This module has the parts of a cycle that
only look at the machine or move its pointers: fetching, the stack, and going on to the next
instruction.

The stack pointer is a byte, so it wraps at 256 whatever the size of the memory is. The program
counter does not wrap when execution goes on to the following instruction.
-/

namespace EightBit

structure Machine (size : Nat) extends Registers where
  memory : Memory size
  halted : Bool := false
  deriving DecidableEq

namespace Machine

variable {size : Nat}

def ofMemory (memory : Memory size) : Machine size :=
  { memory }

def load (machine : Machine size) (program : List UInt8) : Except Fault (Machine size) := do
  let memory ← machine.memory.writeBlock 0 program
  .ok { machine with memory }

theorem load_eq_ok_iff {machine loaded : Machine size} {program : List UInt8} :
    machine.load program = .ok loaded ↔
      program.length ≤ size ∧
        loaded = { machine with memory := machine.memory.overlay 0 program } := by
  simp only [load, bind_eq_ok_iff, Memory.writeBlock_eq_ok_iff, Nat.zero_add, Except.ok.injEq]
  constructor
  · rintro ⟨memory, ⟨fits, rfl⟩, rfl⟩
    exact ⟨fits, rfl⟩
  · rintro ⟨fits, rfl⟩
    exact ⟨_, ⟨fits, rfl⟩, rfl⟩

/-- The instruction at the program counter. The two bytes behind the opcode are read whether the
instruction has operands or not, and all three before the opcode is looked at. -/
def fetch (machine : Machine size) : Except Fault Instruction := do
  let byte ← machine.memory.read machine.pc.toNat
  let a ← machine.memory.read (machine.pc.toNat + 1)
  let b ← machine.memory.read (machine.pc.toNat + 2)
  match Opcode.ofByte? byte with
  | some opcode => .ok (opcode.instruction a b)
  | none => .error (.unknownOpcode byte machine.pc)

theorem fetch_eq_ok_iff {machine : Machine size} {instruction : Instruction} :
    machine.fetch = .ok instruction ↔
      ∃ (opcode : Opcode) (a b : UInt8),
        machine.memory.cells[machine.pc.toNat]? = some opcode.byte ∧
        machine.memory.cells[machine.pc.toNat + 1]? = some a ∧
        machine.memory.cells[machine.pc.toNat + 2]? = some b ∧
        opcode.instruction a b = instruction := by
  simp only [fetch, bind_eq_ok_iff, Memory.read_eq_ok_iff]
  constructor
  · rintro ⟨byte, first, a, second, b, third, decoded⟩
    cases found : Opcode.ofByte? byte with
    | none => simp [found] at decoded
    | some opcode =>
        rw [← Opcode.byte_of_ofByte? found] at first
        exact ⟨opcode, a, b, first, second, third, by simpa [found] using decoded⟩
  · rintro ⟨opcode, a, b, first, second, third, rfl⟩
    refine ⟨opcode.byte, first, a, second, b, third, ?_⟩
    simp [Opcode.ofByte?_byte]

theorem inside_of_fetch {machine : Machine size} {instruction : Instruction}
    (fetched : machine.fetch = .ok instruction) : machine.pc.toNat + 2 < size := by
  obtain ⟨opcode, a, b, -, -, third, -⟩ := fetch_eq_ok_iff.mp fetched
  exact (Vector.getElem?_eq_some_iff.mp third).1

def top (machine : Machine size) : Except Fault UInt8 :=
  machine.memory.read machine.sp.toNat

def push (machine : Machine size) (value : UInt8) : Except Fault (Machine size) := do
  let sp := machine.sp - 1
  let memory ← machine.memory.write sp.toNat value
  .ok { machine with memory, sp }

theorem push_eq_ok_iff {machine pushed : Machine size} {value : UInt8} :
    machine.push value = .ok pushed ↔
      ∃ memory, machine.memory.write (machine.sp - 1).toNat value = .ok memory ∧
        { machine with memory, sp := machine.sp - 1 } = pushed := by
  simp only [push, bind_eq_ok_iff, Except.ok.injEq]

/-- Goes on behind an instruction of `length` bytes at the program counter, if the address there
still is a byte. -/
def proceed (machine : Machine size) (length : Nat) : Except Fault (Machine size) :=
  let next := machine.pc.toNat + length
  if next < 256 then .ok { machine with pc := UInt8.ofNat next }
  else .error (.outOfBounds next size)

end Machine

end EightBit
