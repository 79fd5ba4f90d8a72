import EightBit.Opcode
import EightBit.Registers

/-!
Instructions: an opcode together with the operands that it has. Operand bytes name a general
register, except for the second one of `ldi`, which is the value to load.
-/

namespace EightBit

inductive Instruction where
  | hlt
  | ret
  | push (register : UInt8)
  | pop (register : UInt8)
  | prn (register : UInt8)
  | call (register : UInt8)
  | jmp (register : UInt8)
  | jeq (register : UInt8)
  | jne (register : UInt8)
  | ldi (register value : UInt8)
  | alu (operation : Operation) (a b : UInt8)
  deriving DecidableEq, Repr

/-- The instruction of an opcode and the two bytes behind it, of which it takes those it has. -/
def Opcode.instruction : Opcode → UInt8 → UInt8 → Instruction
  | hlt, _, _ => .hlt
  | ret, _, _ => .ret
  | push, a, _ => .push a
  | pop, a, _ => .pop a
  | prn, a, _ => .prn a
  | call, a, _ => .call a
  | jmp, a, _ => .jmp a
  | jeq, a, _ => .jeq a
  | jne, a, _ => .jne a
  | ldi, a, b => .ldi a b
  | add, a, b => .alu .add a b
  | mul, a, b => .alu .mul a b
  | cmp, a, b => .alu .cmp a b

def Operation.opcode : Operation → Opcode
  | add => .add
  | mul => .mul
  | cmp => .cmp

namespace Instruction

def opcode : Instruction → Opcode
  | hlt => .hlt
  | ret => .ret
  | push _ => .push
  | pop _ => .pop
  | prn _ => .prn
  | call _ => .call
  | jmp _ => .jmp
  | jeq _ => .jeq
  | jne _ => .jne
  | ldi _ _ => .ldi
  | alu operation _ _ => operation.opcode

def operands : Instruction → List UInt8
  | hlt | ret => []
  | push a | pop a | prn a | call a | jmp a | jeq a | jne a => [a]
  | ldi a b | alu _ a b => [a, b]

def encode (instruction : Instruction) : List UInt8 :=
  instruction.opcode.byte :: instruction.operands

def length (instruction : Instruction) : Nat :=
  instruction.opcode.length

theorem length_operands (instruction : Instruction) :
    instruction.operands.length = instruction.opcode.operandCount := by
  cases instruction with
  | alu operation a b => cases operation <;> rfl
  | _ => rfl

theorem length_encode (instruction : Instruction) :
    instruction.encode.length = instruction.length := by
  simp [encode, length, Opcode.length, length_operands, Nat.add_comm]

end Instruction

theorem Instruction.exists_opcode (instruction : Instruction) :
    ∃ (opcode : Opcode) (a b : UInt8), opcode.instruction a b = instruction := by
  cases instruction with
  | hlt => exact ⟨.hlt, 0, 0, rfl⟩
  | ret => exact ⟨.ret, 0, 0, rfl⟩
  | push a => exact ⟨.push, a, 0, rfl⟩
  | pop a => exact ⟨.pop, a, 0, rfl⟩
  | prn a => exact ⟨.prn, a, 0, rfl⟩
  | call a => exact ⟨.call, a, 0, rfl⟩
  | jmp a => exact ⟨.jmp, a, 0, rfl⟩
  | jeq a => exact ⟨.jeq, a, 0, rfl⟩
  | jne a => exact ⟨.jne, a, 0, rfl⟩
  | ldi a b => exact ⟨.ldi, a, b, rfl⟩
  | alu operation a b =>
      cases operation with
      | add => exact ⟨.add, a, b, rfl⟩
      | mul => exact ⟨.mul, a, b, rfl⟩
      | cmp => exact ⟨.cmp, a, b, rfl⟩

theorem Opcode.opcode_instruction (opcode : Opcode) (a b : UInt8) :
    (opcode.instruction a b).opcode = opcode := by
  cases opcode <;> rfl

end EightBit
