import EightBit.Machine.Cycle

/-!
The rules of the instructions as a relation, one rule for each instruction: what the instruction
needs of a machine and what it makes of it. `Instruction.effect` computes exactly this relation, and
an instruction that is executed without a fault takes effect by its rule, prints all of its text and
moves the program counter.
-/

namespace EightBit

variable {size : Nat}

inductive Rule (machine : Machine size) : Instruction → Effect size → Prop where
  | hlt : Rule machine .hlt
      { machine := { machine with halted := true }, executed := .hlt }
  | ret {target : UInt8} :
      machine.top = .ok target →
      Rule machine .ret { machine, executed := .ret target, target := some target }
  | push {register value : UInt8} {memory : Memory size} :
      machine.get register = .ok value →
      machine.memory.write (machine.sp - 1).toNat value = .ok memory →
      Rule machine (.push register)
        { machine := { machine with memory, sp := machine.sp - 1 }
          executed := .push register value }
  | pop {register value : UInt8} {registers : Registers} :
      machine.top = .ok value →
      machine.set register value = .ok registers →
      Rule machine (.pop register)
        { machine := { machine with toRegisters := { registers with sp := registers.sp + 1 } }
          executed := .pop register value }
  | prn {register value : UInt8} :
      machine.get register = .ok value →
      Rule machine (.prn register)
        { machine, executed := .prn register value, printed := some value }
  | call {register target : UInt8} {memory : Memory size} :
      machine.get register = .ok target →
      machine.memory.write (machine.sp - 1).toNat (machine.pc + 2) = .ok memory →
      Rule machine (.call register)
        { machine := { machine with memory, sp := machine.sp - 1 }
          executed := .call register target (machine.pc + 2)
          target := some target }
  | jmp {register target : UInt8} :
      machine.get register = .ok target →
      Rule machine (.jmp register)
        { machine, executed := .jmp register target, target := some target }
  | jeq {register target : UInt8} :
      machine.get register = .ok target →
      Rule machine (.jeq register)
        { machine
          executed := .jeq register target machine.equal
          target := if machine.equal then some target else none }
  | jne {register target : UInt8} :
      machine.get register = .ok target →
      Rule machine (.jne register)
        { machine
          executed := .jne register target !machine.equal
          target := if !machine.equal then some target else none }
  | ldi {register value : UInt8} {registers : Registers} :
      machine.set register value = .ok registers →
      Rule machine (.ldi register value)
        { machine := { machine with toRegisters := registers }, executed := .ldi register value }
  | alu {operation : Operation} {a b : UInt8} {registers : Registers} :
      machine.apply operation a b = .ok registers →
      Rule machine (.alu operation a b)
        { machine := { machine with toRegisters := registers }
          executed := operation.executed a b registers.fl }

theorem Instruction.rule_of_effect_eq_ok {machine : Machine size} {instruction : Instruction}
    {effect : Effect size} (computed : instruction.effect machine = .ok effect) :
    Rule machine instruction effect := by
  cases instruction with
  | hlt =>
      cases computed
      exact .hlt
  | ret =>
      obtain ⟨target, onTop, ⟨⟩⟩ := bind_eq_ok_iff.mp computed
      exact .ret onTop
  | push register =>
      obtain ⟨value, named, rest⟩ := bind_eq_ok_iff.mp computed
      obtain ⟨pushed, stored, ⟨⟩⟩ := bind_eq_ok_iff.mp rest
      obtain ⟨memory, written, rfl⟩ := Machine.push_eq_ok_iff.mp stored
      exact .push named written
  | pop register =>
      obtain ⟨value, onTop, rest⟩ := bind_eq_ok_iff.mp computed
      obtain ⟨registers, stored, ⟨⟩⟩ := bind_eq_ok_iff.mp rest
      exact .pop onTop stored
  | prn register =>
      obtain ⟨value, named, ⟨⟩⟩ := bind_eq_ok_iff.mp computed
      exact .prn named
  | call register =>
      obtain ⟨target, named, rest⟩ := bind_eq_ok_iff.mp computed
      obtain ⟨pushed, stored, ⟨⟩⟩ := bind_eq_ok_iff.mp rest
      obtain ⟨memory, written, rfl⟩ := Machine.push_eq_ok_iff.mp stored
      exact .call named written
  | jmp register =>
      obtain ⟨target, named, ⟨⟩⟩ := bind_eq_ok_iff.mp computed
      exact .jmp named
  | jeq register =>
      obtain ⟨target, named, ⟨⟩⟩ := bind_eq_ok_iff.mp computed
      exact .jeq named
  | jne register =>
      obtain ⟨target, named, ⟨⟩⟩ := bind_eq_ok_iff.mp computed
      exact .jne named
  | ldi register value =>
      obtain ⟨registers, stored, ⟨⟩⟩ := bind_eq_ok_iff.mp computed
      exact .ldi stored
  | alu operation a b =>
      obtain ⟨registers, applied, ⟨⟩⟩ := bind_eq_ok_iff.mp computed
      exact .alu applied

theorem Rule.effect_eq_ok {machine : Machine size} {instruction : Instruction}
    {effect : Effect size} (rule : Rule machine instruction effect) :
    instruction.effect machine = .ok effect := by
  cases rule with
  | hlt => rfl
  | ret onTop => exact bind_eq_ok_iff.mpr ⟨_, onTop, rfl⟩
  | push named written =>
      have stored := Machine.push_eq_ok_iff.mpr ⟨_, written, rfl⟩
      exact bind_eq_ok_iff.mpr ⟨_, named, bind_eq_ok_iff.mpr ⟨_, stored, rfl⟩⟩
  | pop onTop stored =>
      exact bind_eq_ok_iff.mpr ⟨_, onTop, bind_eq_ok_iff.mpr ⟨_, stored, rfl⟩⟩
  | prn named => exact bind_eq_ok_iff.mpr ⟨_, named, rfl⟩
  | call named written =>
      have stored := Machine.push_eq_ok_iff.mpr ⟨_, written, rfl⟩
      exact bind_eq_ok_iff.mpr ⟨_, named, bind_eq_ok_iff.mpr ⟨_, stored, rfl⟩⟩
  | jmp named => exact bind_eq_ok_iff.mpr ⟨_, named, rfl⟩
  | jeq named => exact bind_eq_ok_iff.mpr ⟨_, named, rfl⟩
  | jne named => exact bind_eq_ok_iff.mpr ⟨_, named, rfl⟩
  | ldi stored => exact bind_eq_ok_iff.mpr ⟨_, stored, rfl⟩
  | alu applied => exact bind_eq_ok_iff.mpr ⟨_, applied, rfl⟩

/-- The rules are what an instruction computes, no more and no less. -/
theorem Instruction.effect_eq_ok_iff {machine : Machine size} {instruction : Instruction}
    {effect : Effect size} :
    instruction.effect machine = .ok effect ↔ Rule machine instruction effect :=
  ⟨rule_of_effect_eq_ok, Rule.effect_eq_ok⟩

theorem Rule.pc_eq {machine : Machine size} {instruction : Instruction} {effect : Effect size}
    (rule : Rule machine instruction effect) : effect.machine.pc = machine.pc := by
  cases rule with
  | pop onTop stored =>
      obtain ⟨named, rfl⟩ := Registers.set_eq_ok_iff.mp stored
      rfl
  | ldi stored =>
      obtain ⟨named, rfl⟩ := Registers.set_eq_ok_iff.mp stored
      rfl
  | alu applied => exact (Registers.pointers_of_apply applied).1
  | _ => rfl

theorem Rule.halted_eq {machine : Machine size} {instruction : Instruction}
    {effect : Effect size} (rule : Rule machine instruction effect) :
    effect.machine.halted = machine.halted ∨ instruction = .hlt := by
  cases rule with
  | hlt => exact .inr rfl
  | _ => exact .inl rfl

theorem Effect.goOn_eq_ok_iff {effect : Effect size} {length : Nat} {next : Machine size} :
    effect.goOn length = .ok next ↔
      ∃ pc, next = { effect.machine with pc } ∧
        (effect.target = some pc ∨
          effect.target = none ∧ pc.toNat = effect.machine.pc.toNat + length) := by
  cases jumps : effect.target with
  | some target =>
      simp [goOn, jumps, eq_comm]
  | none =>
      constructor
      · intro wentOn
        simp only [goOn, jumps, Machine.proceed] at wentOn
        split at wentOn
        next byte =>
          cases wentOn
          exact ⟨_, rfl, .inr ⟨rfl, UInt8.toNat_ofNat_of_lt' byte⟩⟩
        next => contradiction
      · rintro ⟨pc, rfl, ⟨⟨⟩⟩ | ⟨-, behind⟩⟩
        have byte : pc.toNat < 256 := pc.toNat_lt
        simp only [goOn, jumps, Machine.proceed, ← behind, byte, ↓reduceIte, UInt8.ofNat_toNat]

namespace Instruction

variable {machine : Machine size} {room : Room} {instruction : Instruction}

theorem execute_of_rule {effect : Effect size} {next : Machine size}
    (rule : Rule machine instruction effect)
    (complete : (room.deliver effect.text).complete = true)
    (wentOn : effect.goOn instruction.length = .ok next) :
    instruction.execute machine room =
      { machine := next
        room := (room.deliver effect.text).room
        output := effect.text
        log := [.executed effect.executed] } := by
  simp [execute, rule.effect_eq_ok, complete, wentOn, Room.written_of_complete complete]

theorem exists_rule_of_passed (passed : (instruction.execute machine room).fault = none) :
    ∃ effect next, Rule machine instruction effect ∧
      (room.deliver effect.text).complete = true ∧
      effect.goOn instruction.length = .ok next := by
  unfold execute at passed
  cases computed : instruction.effect machine with
  | error fault => simp [computed] at passed
  | ok effect =>
      cases complete : (room.deliver effect.text).complete with
      | false => simp [computed, complete] at passed
      | true =>
          cases wentOn : effect.goOn instruction.length with
          | error fault => simp [computed, complete, wentOn] at passed
          | ok next => exact ⟨effect, next, effect_eq_ok_iff.mp computed, complete, wentOn⟩

/-- All that an instruction without a fault does: its rule, and moving on. -/
theorem exists_outcome_of_passed (passed : (instruction.execute machine room).fault = none) :
    ∃ effect pc, Rule machine instruction effect ∧
      (room.deliver effect.text).complete = true ∧
      (effect.target = some pc ∨
        effect.target = none ∧ pc.toNat = machine.pc.toNat + instruction.length) ∧
      instruction.execute machine room =
        { machine := { effect.machine with pc }
          room := (room.deliver effect.text).room
          output := effect.text
          log := [.executed effect.executed] } := by
  obtain ⟨effect, next, rule, complete, wentOn⟩ := exists_rule_of_passed passed
  obtain ⟨pc, rfl, moved⟩ := Effect.goOn_eq_ok_iff.mp wentOn
  rw [rule.pc_eq] at moved
  exact ⟨effect, pc, rule, complete, moved, execute_of_rule rule complete wentOn⟩

theorem exists_outcome_of_falls {effect : Effect size} (rule : Rule machine instruction effect)
    (complete : (room.deliver effect.text).complete = true) (falls : effect.target = none)
    (byte : machine.pc.toNat + instruction.length ≤ 255) :
    ∃ pc, pc.toNat = machine.pc.toNat + instruction.length ∧
      instruction.execute machine room =
        { machine := { effect.machine with pc }
          room := (room.deliver effect.text).room
          output := effect.text
          log := [.executed effect.executed] } := by
  obtain ⟨pc, behind⟩ : ∃ pc : UInt8, pc.toNat = machine.pc.toNat + instruction.length :=
    ⟨_, UInt8.toNat_ofNat_of_lt' (Nat.lt_succ_of_le byte)⟩
  have wentOn : effect.goOn instruction.length = .ok { effect.machine with pc } :=
    Effect.goOn_eq_ok_iff.mpr ⟨pc, rfl, .inr ⟨falls, by rw [rule.pc_eq, behind]⟩⟩
  exact ⟨pc, behind, execute_of_rule rule complete wentOn⟩

theorem log_of_faulted {fault : Fault}
    (faulted : (instruction.execute machine room).fault = some fault) :
    (instruction.execute machine room).log = [] := by
  unfold execute at faulted ⊢
  cases computed : instruction.effect machine with
  | error cause => rfl
  | ok effect =>
      cases complete : (room.deliver effect.text).complete with
      | false => simp [complete]
      | true =>
          cases wentOn : effect.goOn instruction.length with
          | error cause => simp [complete, wentOn]
          | ok next => simp [computed, complete, wentOn] at faulted

end Instruction

namespace Machine

variable {machine : Machine size} {room : Room} {instruction : Instruction}

theorem cycle_of_fetch (fetched : machine.fetch = .ok instruction) :
    machine.cycle room = instruction.execute machine room := by
  simp [cycle, fetched]

theorem exists_fetched_of_passed (passed : (machine.cycle room).fault = none) :
    ∃ instruction, machine.fetch = .ok instruction ∧
      (instruction.execute machine room).fault = none := by
  cases fetched : machine.fetch with
  | error fault => simp [cycle, fetched] at passed
  | ok instruction => exact ⟨instruction, rfl, by rwa [cycle_of_fetch fetched] at passed⟩

theorem exists_outcome_of_passed (passed : (machine.cycle room).fault = none) :
    ∃ instruction effect pc, machine.fetch = .ok instruction ∧ Rule machine instruction effect ∧
      (effect.target = some pc ∨
        effect.target = none ∧ pc.toNat = machine.pc.toNat + instruction.length) ∧
      machine.cycle room =
        { machine := { effect.machine with pc }
          room := (room.deliver effect.text).room
          output := effect.text
          log := [.executed effect.executed] } := by
  obtain ⟨instruction, fetched, passed⟩ := exists_fetched_of_passed passed
  obtain ⟨effect, pc, rule, -, moved, reached⟩ := Instruction.exists_outcome_of_passed passed
  exact ⟨instruction, effect, pc, fetched, rule, moved, (cycle_of_fetch fetched).trans reached⟩

theorem log_of_passed (passed : (machine.cycle room).fault = none) :
    ∃ executed, (machine.cycle room).log = [.executed executed] := by
  obtain ⟨instruction, effect, pc, -, -, -, reached⟩ := exists_outcome_of_passed passed
  exact ⟨effect.executed, congrArg Outcome.log reached⟩

theorem log_of_faulted {fault : Fault} (faulted : (machine.cycle room).fault = some fault) :
    (machine.cycle room).log = [] := by
  cases fetched : machine.fetch with
  | error cause => simp [cycle, fetched]
  | ok instruction =>
      rw [cycle_of_fetch fetched] at faulted ⊢
      exact Instruction.log_of_faulted faulted

theorem halt_of_cycle (passed : (machine.cycle room).fault = none)
    (running : machine.halted = false) (halted : (machine.cycle room).machine.halted = true) :
    machine.memory.cells[machine.pc.toNat]? = some Opcode.hlt.byte ∧
      ∃ pc, (machine.cycle room).machine = { machine with halted := true, pc } ∧
        pc.toNat = machine.pc.toNat + 1 := by
  obtain ⟨instruction, fetched, passed⟩ := exists_fetched_of_passed passed
  obtain ⟨effect, next, rule, complete, wentOn⟩ := Instruction.exists_rule_of_passed passed
  rw [cycle_of_fetch fetched, Instruction.execute_of_rule rule complete wentOn] at halted ⊢
  obtain ⟨pc, rfl, moved⟩ := Effect.goOn_eq_ok_iff.mp wentOn
  rcases rule.halted_eq with kept | rfl
  · exact absurd (halted.symm.trans (kept.trans running)) (by decide)
  · obtain ⟨opcode, a, b, atPc, -, -, decoded⟩ := fetch_eq_ok_iff.mp fetched
    have isHlt : opcode = .hlt := by
      have decodedOpcode := Opcode.opcode_instruction opcode a b
      rw [decoded] at decodedOpcode
      exact decodedOpcode.symm
    cases rule with
    | hlt =>
        rcases moved with ⟨⟨⟩⟩ | ⟨-, behind⟩
        exact ⟨isHlt ▸ atPc, pc, rfl, behind⟩

end Machine

end EightBit
