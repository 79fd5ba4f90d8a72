import EightBit.Machine.Event

/-!
The effect of an instruction, but for going on to the next one. Whatever is wrong with the operands
or the stack is found before anything changes, so an instruction that has no effect leaves no trace
of itself.
-/

namespace EightBit

structure Effect (size : Nat) where
  /-- The machine afterwards, its program counter still at the instruction. -/
  machine : Machine size
  executed : Executed
  printed : Option UInt8 := none
  /-- The address to go to, if not the one behind the instruction. -/
  target : Option UInt8 := none
  deriving DecidableEq

def Effect.text {size : Nat} (effect : Effect size) : String :=
  match effect.printed with
  | some value => toString value.toNat ++ "\n"
  | none => ""

def Operation.executed (a b fl : UInt8) : Operation → Executed
  | add => .add a b
  | mul => .mul a b
  | cmp => .cmp a b fl

variable {size : Nat}

/-- A call pushes the address behind it, a byte like any other value; a return goes to the top of
the stack and leaves it there. -/
def Instruction.effect (machine : Machine size) : Instruction → Except Fault (Effect size)
  | hlt => .ok { machine := { machine with halted := true }, executed := .hlt }
  | ret => do
      let target ← machine.top
      .ok { machine, executed := .ret target, target := some target }
  | push register => do
      let value ← machine.get register
      let pushed ← machine.push value
      .ok { machine := pushed, executed := .push register value }
  | pop register => do
      let value ← machine.top
      let registers ← machine.set register value
      .ok {
        machine := { machine with toRegisters := { registers with sp := registers.sp + 1 } }
        executed := .pop register value }
  | prn register => do
      let value ← machine.get register
      .ok { machine, executed := .prn register value, printed := some value }
  | call register => do
      let target ← machine.get register
      let back := machine.pc + 2
      let pushed ← machine.push back
      .ok { machine := pushed, executed := .call register target back, target := some target }
  | jmp register => do
      let target ← machine.get register
      .ok { machine, executed := .jmp register target, target := some target }
  | jeq register => do
      let target ← machine.get register
      let taken := machine.equal
      .ok {
        machine
        executed := .jeq register target taken
        target := if taken then some target else none }
  | jne register => do
      let target ← machine.get register
      let taken := !machine.equal
      .ok {
        machine
        executed := .jne register target taken
        target := if taken then some target else none }
  | ldi register value => do
      let registers ← machine.set register value
      .ok { machine := { machine with toRegisters := registers }, executed := .ldi register value }
  | alu operation a b => do
      let registers ← machine.apply operation a b
      .ok {
        machine := { machine with toRegisters := registers }
        executed := operation.executed a b registers.fl }

end EightBit
