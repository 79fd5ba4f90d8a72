import EightBit.Text.Numeral

/-!
Opcodes: the byte that selects an instruction, its mnemonic and how many operand bytes follow it.
-/

namespace EightBit

inductive Opcode where
  | hlt
  /-- Return to the address on top of the stack. -/
  | ret
  | push
  | pop
  /-- Print a register as a decimal number. -/
  | prn
  | call
  | jmp
  /-- Jump if the last comparison found equal values. -/
  | jeq
  /-- Jump unless the last comparison found equal values. -/
  | jne
  | ldi
  | add
  | mul
  | cmp
  deriving DecidableEq, Repr

namespace Opcode

def all : List Opcode :=
  [hlt, ret, push, pop, prn, call, jmp, jeq, jne, ldi, add, mul, cmp]

/-- The byte in memory. Its two high bits are the number of operands. -/
def byte : Opcode → UInt8
  | hlt => 0b00000001
  | ret => 0b00010001
  | push => 0b01000101
  | pop => 0b01000110
  | prn => 0b01000111
  | call => 0b01010000
  | jmp => 0b01010100
  | jeq => 0b01010101
  | jne => 0b01010110
  | ldi => 0b10000010
  | add => 0b10100000
  | mul => 0b10100010
  | cmp => 0b10100111

def operandCount : Opcode → Nat
  | hlt | ret => 0
  | push | pop | prn | call | jmp | jeq | jne => 1
  | ldi | add | mul | cmp => 2

def length (opcode : Opcode) : Nat :=
  1 + opcode.operandCount

theorem length_le (opcode : Opcode) : opcode.length ≤ 3 := by
  cases opcode <;> decide

def mnemonic : Opcode → String
  | hlt => "HLT"
  | ret => "RET"
  | push => "PUSH"
  | pop => "POP"
  | prn => "PRN"
  | call => "CALL"
  | jmp => "JMP"
  | jeq => "JEQ"
  | jne => "JNE"
  | ldi => "LDI"
  | add => "ADD"
  | mul => "MUL"
  | cmp => "CMP"

def ofByte? (byte : UInt8) : Option Opcode :=
  all.find? fun opcode => opcode.byte = byte

def ofMnemonic? (name : String) : Option Opcode :=
  all.find? fun opcode => opcode.mnemonic = name

def refusal (byte : UInt8) : String :=
  "No discriminant in enum `Instruction` matches the value `" ++ toString byte.toNat ++ "`"

theorem refusal_inj {first second : UInt8} (same : refusal first = refusal second) :
    first = second := by
  have unquoted := (String.append_left_inj _).mp same
  have numbers := (String.append_right_inj _).mp unquoted
  exact UInt8.toNat.inj (Text.toString_inj numbers)

theorem ofByte?_byte (opcode : Opcode) : ofByte? opcode.byte = some opcode := by
  cases opcode <;> rfl

theorem byte_of_ofByte? {byte : UInt8} {opcode : Opcode} (found : ofByte? byte = some opcode) :
    opcode.byte = byte := by
  simpa using List.find?_some found

theorem ofByte?_eq_none_iff {byte : UInt8} :
    ofByte? byte = none ↔ ∀ opcode : Opcode, opcode.byte ≠ byte := by
  constructor
  · rintro unknown opcode rfl
    rw [ofByte?_byte] at unknown
    contradiction
  · intro stray
    cases found : ofByte? byte with
    | none => rfl
    | some opcode => exact absurd (byte_of_ofByte? found) (stray opcode)

end Opcode

end EightBit
